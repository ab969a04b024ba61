import PmacPoll.Proofs.DeviceExchange
import PmacPoll.Proofs.SingleMessage

/-!
# One exchange after another

What an exchange leaves waiting, and what becomes of it in the next one.

A channel that flushes finds nothing of what was there before, `writeRead_isolated`. One that does
not flush finds what the last reply has left over. If all of that reply was read, or the limit left
room in what the device sent of it at once, nothing is, `readReply_message`. Otherwise the channel
is to skip the rest of the message, which the device sends only after the first part of the next
reply: it skips that part instead, `writeRead_after_message`.
-/

namespace PmacPoll.Device

open Channel Reply Running

/-! ### Exchanges after a flush -/

/-- **A flush isolates an exchange.** Whatever the channel has left over and the device has sent or
    holds back, the reply is what a scanner makes of the whole answer: the answer as it is if
    silence ends it, and its first bytes if it is too long. -/
theorem writeRead_isolated {c : Channel Device} (hflush : c.config.flushBeforeWrite = true)
    (h : c.link.Open) {command reply : Bytes}
    (hanswer : (c.link.answer (heard command)).1 = some reply) (hne : reply ≠ [])
    (hsize : (reply.take (c.link.immediateLimit.getD reply.length)).length ≤ Frame.maxRead) :
    (∀ inbox outbox held, ∃ c',
      writeRead command { c with inbox, link := { c.link with outbox, held } } =
        .ok ⟨min command.length Frame.maxPayload, scan c.config.maxReplyBytes reply⟩ c') ∧
    (Unended reply → reply.length < max c.config.maxReplyBytes 1 →
      scan c.config.maxReplyBytes reply = ⟨reply, .incomplete⟩) ∧
    (max c.config.maxReplyBytes 1 ≤ reply.length →
      Unended (reply.take (max c.config.maxReplyBytes 1)) →
      scan c.config.maxReplyBytes reply =
        ⟨reply.take (max c.config.maxReplyBytes 1 - 1) ++ [Control.ack], .truncated⟩) := by
  refine ⟨?_, fun hunended hroom => (scan_of_room hunended hroom).2, ?_⟩
  · intro inbox outbox held
    -- the device answers as it did, whatever waits at its end of the link
    have halike : Alike c.link { c.link with outbox, held } := ⟨rfl, rfl, rfl, rfl⟩
    obtain ⟨d', hanswer', -⟩ := answer_alike halike (Prod.ext hanswer rfl)
    obtain ⟨c', hexchange, -⟩ :=
      writeRead_device (c := { c with inbox, link := { c.link with outbox, held } }) hflush
        ⟨h.connected, h.inbound⟩ hanswer' hne
        (by rw [immediateLimit_answer hanswer']; exact hsize)
    exact ⟨c', hexchange⟩
  · intro hlong hunended
    -- as many bytes as the limit has fill the reply, and the others are not read
    obtain ⟨hdone, hscan⟩ := scan_of_full hunended
      (show max c.config.maxReplyBytes 1 ≤ (reply.take (max c.config.maxReplyBytes 1)).length by
        exact Nat.le_of_eq (List.length_take_of_le hlong).symm)
    rw [← List.take_append_drop (max c.config.maxReplyBytes 1) reply, scan_append hdone, hscan,
      List.take_append_drop, List.take_take, Nat.min_eq_left (Nat.sub_le _ 1)]

/-- A channel that is to skip the rest of a message, with a device that has an answer on the way. -/
def staleChannel : Channel Device where
  link := { outbox := [0x31], held := [0x0D, 0x06], immediateLimit := some 2
            scripted := [some [0x34, 0x32, 0x2E, 0x35]] }
  config := { maxReplyBytes := 3 }
  inbox := { tail := some true }

/-- Something was left over, sent and held back; the reply is the new answer all the same, cut off
    by the limit. -/
theorem writeRead_isolated_stale : ∃ c',
    writeRead [0x50, 0x31] staleChannel = .ok ⟨2, [0x34, 0x32, 0x06], .truncated⟩ c' := by
  obtain ⟨hexchange, -, htruncated⟩ := @writeRead_isolated staleChannel rfl ⟨rfl, rfl⟩
    [0x50, 0x31] [0x34, 0x32, 0x2E, 0x35] rfl (by decide) (by decide)
  obtain ⟨c', hrun⟩ := hexchange { tail := some true } [0x31] [0x0D, 0x06]
  rw [htruncated (by decide) (by decide)] at hrun
  exact ⟨c', hrun⟩

/-! ### A reply that is one message -/

/-- Reading on from a device that holds the rest of a message back: all of it is read. -/
private theorem collect_rest (config : Channel.Config) {chunks : List Bytes} {later : Bytes}
    {r : Reassembly} {d : Device} (h : Reassembly.Reads config.maxReplyBytes chunks [] r)
    (hopen : r.scanner.isDone = false) (hm : IsMessage (chunks.flatten ++ later))
    (hidle : d.Idle later) (hsize : later.length ≤ Frame.maxRead) (rounds : Nat) :
    ∃ r' d', collect config rounds false r d = .ok () (r', d') ∧
      r'.scanner.finish = scan config.maxReplyBytes (chunks.flatten ++ later) ∧
      r'.inbox = {} ∧ d'.Idle [] ∧ Alike d d' := by
  -- all the message is not there yet, or the scanner were done
  have hne : later ≠ [] := by
    rintro rfl
    rw [List.append_nil] at hm
    exact nomatch hopen.symm.trans (Reassembly.inbox_of_isMessage h hm).1
  obtain ⟨chunk, d', hread, hchunk, hidle', halike⟩ :=
    receiveMore_held hidle hne config.timeoutMs config.timeoutMs
  rw [List.take_of_length_le hsize] at hchunk
  rw [List.drop_of_length_le hsize] at hidle'
  have htail : r.inbox.tail = none := by
    rw [(Reassembly.inbox_of_unended h (hm.unended hne)).2.1 hopen]
  have hflatten : (chunks ++ [chunk.1]).flatten = chunks.flatten ++ later := by
    rw [List.flatten_append, List.flatten_singleton, hchunk]
  -- now it is, so the scanner is done and nothing is left over
  obtain ⟨hdone, hinbox, hfinish⟩ :=
    Reassembly.inbox_of_isMessage (h.take chunk.1 hopen) (by rwa [hflatten])
  rw [hflatten] at hfinish
  refine ⟨r.absorb chunk, d', ?_, hfinish, hinbox, hidle', halike⟩
  simp only [collect_open hopen htail, nextRead, Bool.false_eq_true, if_false, hread]
  exact collect_done hdone config rounds false d'

/-- Reading on once the first part of a message is there. Nothing of the message waits afterwards,
    unless its first part fills the reply: then the rest is to be skipped, and is still held
    back. -/
private theorem collect_begun (config : Channel.Config) {chunk later : Bytes} {d : Device}
    (hm : IsMessage (chunk ++ later)) (hidle : d.Idle later)
    (hsize : later.length ≤ Frame.maxRead) (rounds : Nat) :
    ∃ r' d', collect config rounds false
        (Reassembly.absorb ⟨Scanner.new config.maxReplyBytes, {}⟩ chunk) d = .ok () (r', d') ∧
      r'.scanner.finish = scan config.maxReplyBytes (chunk ++ later) ∧ Alike d d' ∧
      (chunk.length < max config.maxReplyBytes 1 ∨ later = [] →
        r'.inbox = {} ∧ d'.Idle []) ∧
      (max config.maxReplyBytes 1 ≤ chunk.length → later ≠ [] →
        r'.inbox = { tail := some (chunk.any Control.opensBlock) } ∧ d'.Idle later) := by
  have hreads : Reassembly.Reads config.maxReplyBytes [chunk] []
      (Reassembly.absorb ⟨Scanner.new config.maxReplyBytes, {}⟩ chunk) :=
    Reassembly.Reads.begin.take chunk (Scanner.isDone_new _)
  have hscanner : (Reassembly.absorb ⟨Scanner.new config.maxReplyBytes, {}⟩ chunk).scanner =
      ((Scanner.new config.maxReplyBytes).feed chunk).1 := Reassembly.scanner_absorb rfl chunk
  have hflatten : [chunk].flatten = chunk := List.flatten_singleton
  by_cases hlater : later = []
  · subst hlater
    rw [List.append_nil] at hm ⊢
    obtain ⟨hdone, hinbox, hfinish⟩ := Reassembly.inbox_of_isMessage hreads (by rwa [hflatten])
    rw [hflatten] at hfinish
    exact ⟨_, d, collect_done hdone config rounds false d, hfinish, .refl d,
      fun _ => ⟨hinbox, hidle⟩, fun _ hne => absurd rfl hne⟩
  · have hunended := hm.unended hlater
    by_cases hroom : chunk.length < max config.maxReplyBytes 1
    · -- the reply is still open, so the rest of the message is read
      have hopen := (scan_of_room hunended hroom).1
      rw [← hscanner] at hopen
      rw [← hflatten] at hm
      obtain ⟨r', d', hcollect, hfinish, hinbox, hidle', halike⟩ :=
        collect_rest config hreads hopen hm hidle hsize rounds
      rw [hflatten] at hfinish
      exact ⟨r', d', hcollect, hfinish, halike, fun _ => ⟨hinbox, hidle'⟩,
        fun hfull => absurd hroom (Nat.not_lt.mpr hfull)⟩
    · -- the limit has closed the reply
      have hdone := (scan_of_full hunended (Nat.le_of_not_lt hroom)).1
      have hscan := scan_append hdone later
      rw [← hscanner] at hdone
      have hinbox := (Reassembly.inbox_of_unended hreads (by rwa [hflatten])).2.2 hdone
      rw [hflatten] at hinbox
      refine ⟨_, d, collect_done hdone config rounds false d, ?_, .refl d,
        fun hor => absurd (hor.resolve_left hroom) hlater, fun _ _ => ⟨hinbox, hidle⟩⟩
      rw [hscanner, hscan, scan]

/-- Reading a reply that is one message, of which the first `sent` bytes were sent at once. -/
theorem readReply_message {c : Channel Device} {reply : Bytes} {sent : Nat}
    (hinbox : c.inbox = {}) (h : c.link.Open) (hm : IsMessage reply)
    (houtbox : c.link.outbox = reply.take sent) (hheld : c.link.held = reply.drop sent)
    (hsize : reply.length ≤ Frame.maxRead) :
    ∃ inbox d', readReply c = .ok (scan c.config.maxReplyBytes reply)
        { c with inbox, link := d' } ∧ Alike c.link d' ∧
      (sent < max c.config.maxReplyBytes 1 ∨ reply.length ≤ sent → inbox = {} ∧ d'.Idle []) ∧
      (max c.config.maxReplyBytes 1 ≤ sent → sent < reply.length →
        inbox = { tail := some ((reply.take sent).any Control.opensBlock) } ∧
          d'.Idle (reply.drop sent)) := by
  have hwhole : c.link.outbox ++ c.link.held = reply := by
    rw [houtbox, hheld, List.take_append_drop]
  have hnew : (Scanner.new c.config.maxReplyBytes).isDone = false := Scanner.isDone_new _
  obtain ⟨chunk, d₁, hread, halike, hfirst⟩ :=
    nextRead_first c.config h (by rw [hwhole]; exact hm.ne_nil)
      (by rw [houtbox]; exact Nat.le_trans (List.length_take_le' ..) hsize)
  rw [readReply_eq, hinbox, start_empty, collect_open hnew rfl, hread]
  dsimp only
  -- the first read brings the whole message, or what was sent at once
  obtain ⟨hnone, hchunk, hidle⟩ | ⟨-, hchunk, hidle⟩ := hfirst
  · have hreply : c.link.held = reply := by rwa [hnone, List.nil_append] at hwhole
    rw [hreply, List.take_of_length_le hsize] at hchunk
    rw [hreply, List.drop_of_length_le hsize] at hidle
    have hparts : IsMessage (reply ++ []) := by rwa [List.append_nil]
    obtain ⟨r', d', hcollect, hfinish, halike', hleft, -⟩ :=
      collect_begun c.config hparts hidle (Nat.zero_le _) (Transport.horizon c.link)
    rw [List.append_nil] at hfinish
    refine ⟨r'.inbox, d', by rw [hchunk, hcollect, ← hfinish], halike.trans halike',
      fun _ => hleft (Or.inr rfl), fun hfull hlt => ?_⟩
    -- a byte would have been sent
    have hzero := congrArg List.length (hnone.symm.trans houtbox)
    rw [List.length_nil, List.length_take] at hzero
    omega
  · rw [houtbox] at hchunk
    rw [hheld] at hidle
    have hlength : (reply.take sent).length = min sent reply.length := List.length_take
    have hparts : IsMessage (reply.take sent ++ reply.drop sent) := by
      rwa [List.take_append_drop]
    obtain ⟨r', d', hcollect, hfinish, halike', hleft, hcut⟩ :=
      collect_begun c.config hparts hidle (by rw [List.length_drop]; omega)
        (Transport.horizon c.link)
    rw [List.take_append_drop] at hfinish
    refine ⟨r'.inbox, d', by rw [hchunk, hcollect, ← hfinish], halike.trans halike',
      fun hor => hleft ?_, fun hfull hlt => hcut (by omega) ?_⟩
    · rw [List.drop_eq_nil_iff]
      omega
    · rw [ne_eq, List.drop_eq_nil_iff]
      omega

/-! ### Skipping the rest of a message -/

/-- Reading on while a message is to be skipped, of which or after which some bytes have come: the
    reply starts with what follows its end. -/
private theorem collect_skipping (config : Channel.Config) {chunk later rest : Bytes}
    {r : Reassembly}
    {d : Device} {inBlock : Bool} (htail : r.inbox.tail = some inBlock)
    (hopen : r.scanner.isDone = false)
    (hskip : Inbox.skipMessage inBlock (chunk ++ later) = .ok rest) (hrest : rest ≠ [])
    (hidle : d.Idle later) {rounds : Nat} (hrounds : later.length ≤ rounds) :
    ∃ r' d', collect config rounds false (r.absorb chunk) d = .ok () (r', d') ∧
      r'.scanner = (r.scanner.feed rest).1 := by
  -- on the bytes that are held back, of which every read takes some
  induction hn : later.length using Nat.strongRecOn generalizing chunk later r d inBlock rounds with
  | ind n ih =>
    rw [Inbox.skipMessage_append] at hskip
    rw [Reassembly.absorb_of_tail htail]
    cases hchunk : Inbox.skipMessage inBlock chunk with
    | ok first =>
      -- the message has ended, and this is the start of the reply
      rw [hchunk] at hskip
      obtain rfl := Except.ok.inj hskip
      have hscanner := Reassembly.scanner_absorb
        (r := { r with inbox := { r.inbox with tail := none } }) rfl first
      have hne : later ≠ [] ∨ (Reassembly.absorb
          { r with inbox := { r.inbox with tail := none } } first).scanner.isEmpty = false := by
        rw [hscanner]
        by_cases hfirst : first = []
        · exact Or.inl (by rwa [hfirst, List.nil_append] at hrest)
        · exact Or.inr (Scanner.isEmpty_feed_of_ne hopen hfirst)
      obtain ⟨r', d', hcollect, hr', -⟩ :=
        collect_idle config (Reassembly.tail_absorb rfl) hne hidle rounds
      exact ⟨r', d', hcollect, by rw [hr', hscanner, ← Scanner.fst_feed_append]⟩
    | error inBlock' =>
      rw [hchunk] at hskip
      have hlater : later ≠ [] := by
        rintro rfl
        exact nomatch hskip
      obtain ⟨chunk', d₁, hread, hchunk', hidle', -⟩ :=
        receiveMore_held hidle hlater config.timeoutMs config.timeoutMs
      have hpos := List.length_pos_iff.mpr hlater
      have hlt : (later.drop Frame.maxRead).length < later.length := by
        rw [List.length_drop, Frame.maxRead]
        omega
      cases rounds with
      | zero => exact absurd hrounds (by omega)
      | succ rounds =>
        have hlater' : (later.drop Frame.maxRead).length ≤ rounds := by omega
        have hskip' : Inbox.skipMessage inBlock' (chunk'.1 ++ later.drop Frame.maxRead) =
            .ok rest := by
          rw [hchunk', List.take_append_drop]
          exact hskip
        obtain ⟨r', d', hcollect, hr'⟩ :=
          ih _ (hn ▸ hlt) (r := { r with inbox := { r.inbox with tail := some inBlock' } }) rfl
            hopen hskip' hidle' hlater' rfl
        refine ⟨r', d', ?_, hr'⟩
        rw [collect_tail (by exact hopen) rfl, nextRead, if_neg Bool.false_ne_true, hread]
        exact hcollect

/-- Reading a reply when a message is to be skipped first. -/
private theorem readReply_skipping {c : Channel Device} {inBlock : Bool} {rest : Bytes}
    (hinbox : c.inbox = { tail := some inBlock }) (h : c.link.Open)
    (hsize : c.link.outbox.length ≤ Frame.maxRead)
    (hskip : Inbox.skipMessage inBlock (c.link.outbox ++ c.link.held) = .ok rest)
    (hrest : rest ≠ []) :
    ∃ c', readReply c = .ok (scan c.config.maxReplyBytes rest) c' := by
  have hne : c.link.outbox ++ c.link.held ≠ [] := by
    intro hnil
    rw [hnil] at hskip
    exact nomatch hskip
  obtain ⟨chunk, later, d₁, hread, hidle, -, hbytes⟩ := nextRead_split c.config h hne hsize
  have hlength := congrArg List.length hbytes
  have hpos := List.length_pos_iff.mpr chunk.2.1
  simp only [List.length_append] at hlength
  -- the first read costs a round
  obtain ⟨rounds, hrounds⟩ := Nat.exists_eq_succ_of_ne_zero
    (show c.link.outbox.length + c.link.held.length ≠ 0 by omega)
  have hhorizon : Transport.horizon c.link = rounds + 1 := hrounds
  have hnew : (Scanner.new c.config.maxReplyBytes).isDone = false := Scanner.isDone_new _
  have hstart : Reassembly.start c.config.maxReplyBytes { tail := some inBlock } =
      ⟨Scanner.new c.config.maxReplyBytes, { tail := some inBlock }⟩ := rfl
  rw [hbytes] at hskip
  have hlater : later.length ≤ rounds := by omega
  obtain ⟨r', d', hcollect, hr'⟩ :=
    collect_skipping c.config
      (r := ⟨Scanner.new c.config.maxReplyBytes, { tail := some inBlock }⟩) rfl hnew hskip hrest
      hidle hlater
  refine ⟨{ c with inbox := r'.inbox, link := d' }, ?_⟩
  rw [readReply_eq, hinbox, hstart, hhorizon, collect_tail hnew rfl, hread]
  dsimp only
  rw [hcollect]
  dsimp only
  rw [hr']
  rfl

/-! ### Exchanges without a flush -/

/-- An exchange that gets one message, with nothing waiting before. -/
private theorem writeAndRead_message {c : Channel Device} {command reply : Bytes} {d : Device}
    (hinbox : c.inbox = {}) (h : c.link.Idle [])
    (hanswer : c.link.answer (heard command) = (some reply, d)) (hm : IsMessage reply)
    (hsize : reply.length ≤ Frame.maxRead) :
    ∃ c', writeAndRead command c =
        .ok ⟨min command.length Frame.maxPayload, scan c.config.maxReplyBytes reply⟩ c' ∧
      c'.config = c.config ∧ Alike d c'.link ∧
      (c.link.immediateLimit.getD reply.length < max c.config.maxReplyBytes 1 ∨
          reply.length ≤ c.link.immediateLimit.getD reply.length →
        c'.inbox = {} ∧ c'.link.Idle []) ∧
      (max c.config.maxReplyBytes 1 ≤ c.link.immediateLimit.getD reply.length →
        c.link.immediateLimit.getD reply.length < reply.length →
        c'.inbox = { tail := some ((reply.take
            (c.link.immediateLimit.getD reply.length)).any Control.opensBlock) } ∧
          c'.link.Idle (reply.drop (c.link.immediateLimit.getD reply.length))) := by
  obtain ⟨d₁, hsend, hopen, halike, houtbox, hheld⟩ := send_command h hanswer
  rw [List.nil_append] at hheld
  obtain ⟨inbox, d₂, hreply, halike₂, hleft, hcut⟩ :=
    readReply_message (c := { c with
      link := d₁, lastWritten := min command.length Frame.maxPayload }) hinbox hopen hm houtbox
      hheld hsize
  refine ⟨{ c with inbox, link := d₂, lastWritten := min command.length Frame.maxPayload }, ?_, rfl,
    halike.trans halike₂, hleft, hcut⟩
  simp only [writeAndRead, hsend, hreply]

/-- An exchange when a message is to be skipped of which the device holds the rest back: that comes
    after the first part of the reply. -/
private theorem writeAndRead_skipping {c : Channel Device} {command reply held rest : Bytes}
    {d : Device}
    {inBlock : Bool} {limit : Nat} (hinbox : c.inbox = { tail := some inBlock })
    (h : c.link.Idle held) (hanswer : c.link.answer (heard command) = (some reply, d))
    (hlimit : c.link.immediateLimit = some limit) (hsize : reply.length ≤ Frame.maxRead)
    (hskip : Inbox.skipMessage inBlock (reply.take limit ++ (held ++ reply.drop limit)) = .ok rest)
    (hrest : rest ≠ []) :
    ∃ c', writeAndRead command c =
      .ok ⟨min command.length Frame.maxPayload, scan c.config.maxReplyBytes rest⟩ c' := by
  obtain ⟨d₁, hsend, hopen, -, houtbox, hheld⟩ := send_command h hanswer
  rw [hlimit, Option.getD_some] at houtbox hheld
  obtain ⟨c', hreply⟩ :=
    readReply_skipping (c := { c with
      link := d₁, lastWritten := min command.length Frame.maxPayload }) hinbox hopen
      (by rw [houtbox]; exact Nat.le_trans (List.length_take_le' ..) hsize)
      (by rw [houtbox, hheld]; exact hskip) hrest
  refine ⟨c', ?_⟩
  simp only [writeAndRead, hsend, hreply]

/-- **The reply after a message, without a flush.** A channel and a device of which nothing is
    waiting exchange two commands, each answered with one message. The second reply is that of the
    second message, if the size limit leaves room in what the device sends at once of the first
    message or that is all of it. Otherwise the limit cuts the first reply off while the device
    holds the rest of its message back. That rest comes in the middle of the second message, the
    channel skips to the first end of a message in the two, and the second reply starts there. -/
theorem writeRead_after_message {c : Channel Device} {command₁ command₂ reply₁ reply₂ : Bytes}
    {d₁ d₂ : Device} (hflush : c.config.flushBeforeWrite = false) (hinbox : c.inbox = {})
    (h : c.link.Idle []) (hanswer₁ : c.link.answer (heard command₁) = (some reply₁, d₁))
    (hanswer₂ : d₁.answer (heard command₂) = (some reply₂, d₂))
    (hm₁ : IsMessage reply₁) (hm₂ : IsMessage reply₂)
    (hsize : reply₁.length + reply₂.length ≤ Frame.maxRead) :
    ∃ c₁, writeRead command₁ c =
        .ok ⟨min command₁.length Frame.maxPayload, scan c.config.maxReplyBytes reply₁⟩ c₁ ∧
      ((∀ limit, c.link.immediateLimit = some limit →
          limit < max c.config.maxReplyBytes 1 ∨ reply₁.length ≤ limit) →
        ∃ c₂, writeRead command₂ c₁ =
          .ok ⟨min command₂.length Frame.maxPayload, scan c.config.maxReplyBytes reply₂⟩ c₂) ∧
      (∀ limit, c.link.immediateLimit = some limit → max c.config.maxReplyBytes 1 ≤ limit →
        limit < reply₁.length →
        (scan c.config.maxReplyBytes reply₁).termination = .truncated ∧
        ∃ rest c₂, Inbox.skipMessage ((reply₁.take limit).any Control.opensBlock)
            (reply₂.take limit ++ (reply₁.drop limit ++ reply₂.drop limit)) = .ok rest ∧
          writeRead command₂ c₁ =
            .ok ⟨min command₂.length Frame.maxPayload, scan c.config.maxReplyBytes rest⟩ c₂) := by
  have hwrite : ∀ (c : Channel Device) (command : Bytes), c.config.flushBeforeWrite = false →
      writeRead command c = writeAndRead command { c with lastWritten := 0 } := by
    intro c command hflush
    rw [writeRead_eq, if_neg (by rw [hflush]; decide)]
  obtain ⟨c₁, hexchange₁, hconfig, halike, hleft, hcut⟩ :=
    writeAndRead_message (c := { c with lastWritten := 0 }) hinbox h hanswer₁ hm₁ (by omega)
  obtain ⟨d₂', hanswer₂', -⟩ := answer_alike halike hanswer₂
  have hlimit₁ : c₁.link.immediateLimit = c.link.immediateLimit :=
    halike.immediateLimit.trans (immediateLimit_answer hanswer₁)
  have hmax : c₁.config.maxReplyBytes = c.config.maxReplyBytes := by rw [hconfig]
  have hflush₁ : c₁.config.flushBeforeWrite = false := by rw [hconfig]; exact hflush
  refine ⟨c₁, by rw [hwrite c command₁ hflush]; exact hexchange₁, ?_, ?_⟩
  · intro hroom
    -- without a limit all of the first message was sent at once
    obtain ⟨hinbox₁, hidle₁⟩ := hleft (by
      cases hlimit : c.link.immediateLimit with
      | none => exact Or.inr (Nat.le_refl _)
      | some limit => exact hroom limit hlimit)
    obtain ⟨c₂, hexchange₂, -⟩ :=
      writeAndRead_message (c := { c₁ with lastWritten := 0 }) hinbox₁ hidle₁ hanswer₂' hm₂
        (by omega)
    exact ⟨c₂, by rw [hwrite c₁ command₂ hflush₁, ← hmax]; exact hexchange₂⟩
  · intro limit hlimit hfull hlt
    simp only [hlimit, Option.getD_some] at hcut
    obtain ⟨hinbox₁, hidle₁⟩ := hcut hfull hlt
    obtain ⟨rest, hskip, hrest⟩ := exists_skipMessage_crossed hm₁ hm₂ hlt
    obtain ⟨c₂, hexchange₂⟩ :=
      writeAndRead_skipping (c := { c₁ with lastWritten := 0 }) hinbox₁ hidle₁ hanswer₂'
        (hlimit₁.trans hlimit) (by omega) hskip hrest
    refine ⟨?_, rest, c₂, hskip, by rw [hwrite c₁ command₂ hflush₁, ← hmax]; exact hexchange₂⟩
    -- the bytes that were sent at once fill the reply
    have hdrop : reply₁.drop limit ≠ [] := by
      rw [ne_eq, List.drop_eq_nil_iff]
      omega
    have hfilled : max c.config.maxReplyBytes 1 ≤ (reply₁.take limit).length := by
      rwa [List.length_take_of_le (Nat.le_of_lt hlt)]
    rw [← List.take_append_drop limit reply₁] at hm₁
    obtain ⟨hdone, hscan⟩ := scan_of_full (hm₁.unended hdrop) hfilled
    rw [← List.take_append_drop limit reply₁]
    rw [scan_append hdone, hscan]

/-- A channel for short replies, with a device that holds the ends of its answers back. -/
def crossedChannel : Channel Device where
  link := { immediateLimit := some 5
            scripted := [some [0x31, 0x32, 0x33, 0x34, 0x35, 0x0D, 0x06],
              some [0x39, 0x0D, 0x06]] }
  config := { maxReplyBytes := 4, flushBeforeWrite := false }

/-- The limit is met before the first message ends, so its rest becomes the second reply. -/
theorem writeRead_after_message_crossed : ∃ c₁ c₂,
    writeRead [0x50, 0x31] crossedChannel = .ok ⟨2, [0x31, 0x32, 0x33, 0x06], .truncated⟩ c₁ ∧
      writeRead [0x50, 0x32] c₁ = .ok ⟨2, [0x0D, 0x06], .ack⟩ c₂ := by
  obtain ⟨c₁, hfirst, -, hcut⟩ := @writeRead_after_message crossedChannel
    [0x50, 0x31] [0x50, 0x32] [0x31, 0x32, 0x33, 0x34, 0x35, 0x0D, 0x06] [0x39, 0x0D, 0x06] _ _
    rfl rfl ⟨⟨rfl, rfl⟩, rfl, rfl⟩ rfl rfl (by decide) (by decide) (by decide)
  obtain ⟨-, rest, c₂, hskip, hsecond⟩ := hcut 5 rfl (by decide) (by decide)
  -- what is skipped is the second message
  obtain rfl : [0x0D, 0x06] = rest := Except.ok.inj hskip
  exact ⟨c₁, c₂, hfirst, hsecond⟩

end PmacPoll.Device
