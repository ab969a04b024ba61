import PmacPoll.Device
import PmacPoll.Proofs.FrameCodec
import PmacPoll.Proofs.ReplyReading

/-!
# An exchange with a simulated controller

A channel that flushes before it writes gets from a device that answers exactly what a scanner makes
of the answer as a whole, `writeRead_device`: whatever was waiting at either end before, and however
the device divides the answer into what it sends at once and what it holds back.

The steps are those of the exchange. `send_eq`, `read_all` and `isReady_eq` say what each call on
the link does to the device. Between two reads the device is `Idle`, and a further read brings the
next part of what it holds back, `receiveMore_held`, or nothing, `receiveMore_silent`. From that
`collect_idle` follows by induction on the bytes that are held back.
-/

namespace PmacPoll

open Running

namespace Device

/-! ### Frames -/

/-- The device after a frame that only moves bytes. -/
def moved (d : Device) (frame : Frame) (outbox held : Bytes) : Device :=
  { d with outbox, held, frames := d.frames ++ [frame], handled := d.handled + 1 }

/-- A flush drops what is waiting, and is answered by its own first byte. -/
private theorem handle_flush (d : Device) :
    d.handle Frame.flush = d.moved Frame.flush [Frame.download] [] := rfl

/-- A probe is answered by two bytes, of which the first says whether data are held back. -/
private theorem handle_readReady (d : Device) :
    d.handle Frame.readReady =
      d.moved Frame.readReady (d.outbox ++ [if d.held.isEmpty then 0 else 1, 0]) d.held :=
  rfl

/-- A call for the data moves what is held back to the reader, as far as it was called for. -/
private theorem handle_getBuffer (d : Device) {size : Nat} (hsize : size ≤ 0xFFFF) :
    d.handle (Frame.getBuffer size) =
      d.moved (Frame.getBuffer size) (d.outbox ++ d.held.take size) (d.held.drop size) := by
  -- the length is sent in two octets, which is enough for it
  have hcount : (Frame.getBuffer size).length.toNat = size := by
    change (UInt16.ofNat (min size 0xFFFF)).toNat = size
    rw [Nat.min_eq_left hsize, UInt16.toNat_ofNat_of_lt' (Nat.lt_succ_of_le hsize)]
  change ({ d with
    outbox := d.outbox ++ d.held.take (Frame.getBuffer size).length.toNat
    held := d.held.drop (Frame.getBuffer size).length.toNat
    frames := d.frames ++ [Frame.getBuffer size]
    handled := d.handled + 1 } : Device) = _
  rw [hcount]
  rfl

/-- The command that a device takes out of the frame for some bytes. -/
def heard (command : Bytes) : String :=
  match Frame.controlCharacter? command with
  | some character => String.singleton (Char.ofNat (character.toUInt16.toNat % 256))
  | none => Utf8.decode (command.take Frame.maxPayload)

/-- The device after the frame for some bytes, which it answers. -/
def answered (d : Device) (command reply : Bytes) : Device :=
  { d.deliver reply with
    commands := d.commands ++ [⟨heard command, (Frame.controlCharacter? command).isSome⟩]
    frames := d.frames ++ [Frame.ofCommand command]
    handled := d.handled + 1 }

/-- The frame of a command is received as the text that is heard in it. -/
theorem perform_ofCommand (d : Device) (command : Bytes) :
    d.perform (Frame.ofCommand command) =
      d.receive (heard command) (Frame.controlCharacter? command).isSome := by
  unfold Frame.ofCommand heard
  cases Frame.controlCharacter? command with
  | some character => rfl
  | none => rfl

/-- A command is answered at once, and only that is put in front of the reader. -/
private theorem handle_ofCommand {d d' : Device} {command reply : Bytes}
    (h : d.answer (heard command) = (some reply, d')) :
    d.handle (Frame.ofCommand command) = d'.answered command reply := by
  have hreceive : ∀ control : Bool, d.receive (heard command) control =
      { d'.deliver reply with commands := d'.commands ++ [⟨heard command, control⟩] } := by
    intro control
    simp only [receive, h]
    rfl
  simp only [handle, perform_ofCommand, hreceive]
  rfl

/-! ### Calls on the link -/

/-- The device can be reached, and no frame is half received. -/
structure Open (d : Device) : Prop where
  connected : d.connected = true
  inbound : d.inbound = []

/-- A frame that goes out is handled. -/
theorem send_eq {d : Device} (h : d.Open) {frame : Frame} (hframe : frame.Complete)
    (hinbound : (d.handle frame).inbound = []) :
    Link.send frame d = .ok () (d.handle frame) := by
  have hwrite : (Transport.write frame.encode : Link Device Nat) d =
      .ok frame.encode.length { d.handle frame with inbound := [] } := by
    change write frame.encode d = _
    rw [write, if_pos h.connected, h.inbound, List.nil_append, Frame.decodeAll_encode hframe]
    rfl
  rw [Link.send, bind_run, hwrite, ← hinbound]
  rfl

/-- Without a connection no frame goes out. -/
theorem send_disconnected {d : Device} (h : d.connected = false) (frame : Frame) :
    Link.send frame d = .error (.connection "device disconnected") d := by
  have hwrite : (Transport.write frame.encode : Link Device Nat) d =
      .error (.connection "device disconnected") d := by
    change write frame.encode d = _
    rw [write, if_neg (by rw [h]; decide)]
  rw [Link.send, bind_run, hwrite]

/-- A read from a device that sends nothing times out. -/
private theorem read_silent {d : Device} (h : d.Open) (houtbox : d.outbox = [])
    (size timeoutMs : Nat) :
    (Transport.read size timeoutMs : Link Device _) d =
      .error (.timeout ("no data within " ++ toString timeoutMs ++ "ms")) d := by
  change read size timeoutMs d = _
  rw [read, if_pos h.connected, if_pos (by rw [houtbox]; rfl)]

/-- A read takes all that is waiting, if it asks for enough. -/
theorem read_all {d : Device} (h : d.Open) {outbox : Bytes} (houtbox : d.outbox = outbox)
    (hne : outbox ≠ []) {size : Nat} (hsize : outbox.length ≤ size) (timeoutMs : Nat) :
    (Transport.read size timeoutMs : Link Device _) d =
      .ok ⟨outbox, hsize⟩ { d with outbox := [] } := by
  subst houtbox
  change read size timeoutMs d = _
  rw [read, if_pos h.connected, if_neg (by rwa [List.isEmpty_iff])]
  simp only [List.take_of_length_le hsize, List.drop_of_length_le hsize]

/-- The device answers commands as another one does. -/
structure Alike (d d' : Device) : Prop where
  scripted : d'.scripted = d.scripted
  responder : d'.responder = d.responder
  values : d'.values = d.values
  immediateLimit : d'.immediateLimit = d.immediateLimit

/-- A device is like itself. -/
theorem Alike.refl (d : Device) : Alike d d := ⟨rfl, rfl, rfl, rfl⟩

/-- Likeness goes on from one device to the next. -/
theorem Alike.trans {d₁ d₂ d₃ : Device} (h : Alike d₁ d₂) (h' : Alike d₂ d₃) : Alike d₁ d₃ where
  scripted := h'.scripted.trans h.scripted
  responder := h'.responder.trans h.responder
  values := h'.values.trans h.values
  immediateLimit := h'.immediateLimit.trans h.immediateLimit

/-- Between two reads: nothing is to be read, and some bytes are held back. -/
structure Idle (d : Device) (held : Bytes) : Prop extends Open d where
  outbox : d.outbox = []
  held_eq : d.held = held

/-- The two bytes of an answer are read at once. -/
private theorem gather_two {d : Device} (h : d.Open) {a b : UInt8} (houtbox : d.outbox = [a, b])
    (timeoutMs : Nat) : Link.gather timeoutMs 2 d = .ok [a, b] { d with outbox := [] } := by
  have hread := read_all h houtbox (List.cons_ne_nil a [b]) (Nat.le_refl 2) timeoutMs
  simp only [Link.gather, bind_run, attempt_run, hread, List.length_cons, List.length_nil,
    Nat.zero_add, Nat.sub_self, pure_run]
  rfl

/-- The answer to a probe. -/
theorem isReady_eq {d : Device} {held : Bytes} (h : d.Idle held) (timeoutMs : Nat) :
    ∃ d', Link.isReady timeoutMs d = .ok (!held.isEmpty) d' ∧ d'.Idle held ∧ Alike d d' := by
  have hsend := send_eq h.toOpen Frame.complete_readReady h.inbound
  rw [handle_readReady, h.outbox, h.held_eq, List.nil_append] at hsend
  have hopen : (d.moved Frame.readReady [if held.isEmpty then 0 else 1, 0] held).Open :=
    ⟨h.connected, h.inbound⟩
  refine ⟨{ d.moved Frame.readReady [if held.isEmpty then 0 else 1, 0] held with outbox := [] },
    ?_, ⟨⟨h.connected, h.inbound⟩, rfl, rfl⟩, ⟨rfl, rfl, rfl, rfl⟩⟩
  simp only [Link.isReady, bind_run, hsend, gather_two hopen rfl, pure_run, Link.saysReady]
  cases held <;> rfl

/-- A fetch of something brings something. -/
private theorem take_ne_nil {held : Bytes} (hne : held ≠ []) : held.take Frame.maxRead ≠ [] := by
  cases held with
  | nil => exact absurd rfl hne
  | cons byte more => exact List.cons_ne_nil _ _

/-- Asking for what is held back, and reading it. -/
theorem getBuffer_held {d : Device} {held : Bytes} (h : d.Idle held) (hne : held ≠ [])
    (timeoutMs : Nat) :
    ∃ d₁ d₂, Link.send (Frame.getBuffer Frame.maxRead) d = .ok () d₁ ∧
      (Transport.read Frame.maxRead timeoutMs : Link Device _) d₁ =
        .ok ⟨held.take Frame.maxRead, List.length_take_le ..⟩ d₂ ∧
      d₂.Idle (held.drop Frame.maxRead) ∧ Alike d d₂ := by
  have hsend := send_eq h.toOpen (Frame.complete_getBuffer Frame.maxRead) h.inbound
  rw [handle_getBuffer d (by decide), h.outbox, h.held_eq, List.nil_append] at hsend
  have hopen : (d.moved (Frame.getBuffer Frame.maxRead) (held.take Frame.maxRead)
      (held.drop Frame.maxRead)).Open := ⟨h.connected, h.inbound⟩
  have hread := read_all hopen rfl (take_ne_nil hne) (List.length_take_le ..) timeoutMs
  exact ⟨_, _, hsend, hread, ⟨⟨h.connected, h.inbound⟩, rfl, rfl⟩, ⟨rfl, rfl, rfl, rfl⟩⟩

/-! ### Reads of a reply -/

/-- A read of a device that has sent nothing yet but holds some bytes back. -/
theorem fetch_held {d : Device} {held : Bytes} (h : d.Idle held) (hne : held ≠ [])
    (probeMs timeoutMs : Nat) :
    ∃ chunk d', Link.fetch probeMs Frame.maxRead timeoutMs d = .ok chunk d' ∧
      chunk.1 = held.take Frame.maxRead ∧ d'.Idle (held.drop Frame.maxRead) ∧ Alike d d' := by
  obtain ⟨d₁, hready, hidle, halike⟩ := isReady_eq h probeMs
  obtain ⟨d₂, d₃, hsend, hread, hidle', halike'⟩ := getBuffer_held hidle hne timeoutMs
  have hheld : (!held.isEmpty) = true := by simpa using hne
  refine ⟨⟨held.take Frame.maxRead, take_ne_nil hne, List.length_take_le ..⟩, d₃, ?_, rfl, hidle',
    halike.trans halike'⟩
  simp only [Link.fetch, bind_run, hready, hheld, if_true, hsend, hread, dif_neg (take_ne_nil hne)]
  rfl

/-- A read of a device that has sent something. -/
private theorem receive_sent {d : Device} (h : d.Open) (hne : d.outbox ≠ [])
    (hsize : d.outbox.length ≤ Frame.maxRead) (probeMs timeoutMs : Nat) :
    ∃ chunk d', Link.receive probeMs Frame.maxRead timeoutMs d = .ok chunk d' ∧
      chunk.1 = d.outbox ∧ d'.Idle d.held ∧ Alike d d' := by
  have hread := read_all h rfl hne hsize timeoutMs
  refine ⟨⟨d.outbox, hne, hsize⟩, { d with outbox := [] }, ?_, rfl,
    ⟨⟨h.connected, h.inbound⟩, rfl, rfl⟩, ⟨rfl, rfl, rfl, rfl⟩⟩
  simp only [Link.receive, bind_run, attempt_run, hread, dif_neg hne]
  rfl

/-- A read of a device that has sent nothing is one of what it holds back. -/
theorem receive_idle {d : Device} {held : Bytes} (h : d.Idle held) (probeMs timeoutMs : Nat) :
    Link.receive probeMs Frame.maxRead timeoutMs d =
      Link.fetch probeMs Frame.maxRead timeoutMs d := by
  simp only [Link.receive, bind_run, attempt_run, read_silent h.toOpen h.outbox]
  rfl

/-- A further read of a device that holds some bytes back. -/
theorem receiveMore_held {d : Device} {held : Bytes} (h : d.Idle held) (hne : held ≠ [])
    (probeMs timeoutMs : Nat) :
    ∃ chunk d', Link.receiveMore probeMs Frame.maxRead timeoutMs d = .ok chunk d' ∧
      chunk.1 = held.take Frame.maxRead ∧ d'.Idle (held.drop Frame.maxRead) ∧ Alike d d' := by
  obtain ⟨d₁, hready, hidle, halike⟩ := isReady_eq h probeMs
  obtain ⟨d₂, d₃, hsend, hread, hidle', halike'⟩ := getBuffer_held hidle hne timeoutMs
  have hheld : (!held.isEmpty) = true := by simpa using hne
  refine ⟨⟨held.take Frame.maxRead, take_ne_nil hne, List.length_take_le ..⟩, d₃, ?_, rfl, hidle',
    halike.trans halike'⟩
  simp only [Link.receiveMore, bind_run, hready, hheld, if_true, hsend, Link.receive, attempt_run,
    hread, dif_neg (take_ne_nil hne)]
  rfl

/-- A further read of a device that holds nothing back. -/
theorem receiveMore_silent {d : Device} (h : d.Idle []) (probeMs timeoutMs : Nat) :
    ∃ d', Link.receiveMore probeMs Frame.maxRead timeoutMs d =
      .error (.timeout ("no reply within " ++ toString timeoutMs ++ "ms and nothing pending")) d' ∧
      d'.Idle [] ∧ Alike d d' := by
  obtain ⟨d₁, hready, hidle, halike⟩ := isReady_eq h probeMs
  obtain ⟨d₂, hready', hidle', halike'⟩ := isReady_eq hidle probeMs
  refine ⟨d₂, ?_, hidle', halike.trans halike'⟩
  simp only [Link.receiveMore, bind_run, hready, List.isEmpty_nil, Bool.not_true,
    Bool.false_eq_true, if_false, receive_idle hidle, Link.fetch, hready', throw_run]

/-! ### A reply -/

open Channel Reply

/-- Reading on from a device that holds the rest of a reply back. -/
theorem collect_idle (config : Channel.Config) {held : Bytes} {r : Reassembly} {d : Device}
    (htail : r.scanner.isDone = false → r.inbox.tail = none)
    (hne : held ≠ [] ∨ r.scanner.isEmpty = false) (h : d.Idle held) (rounds : Nat) :
    ∃ r' d', collect config rounds false r d = .ok () (r', d') ∧
      r'.scanner = (r.scanner.feed held).1 ∧ d'.Open ∧ Alike d d' := by
  -- Each further read takes some of the bytes that are held back.
  induction hn : held.length using Nat.strongRecOn generalizing held r d with
  | ind n ih =>
    by_cases hdone : r.scanner.isDone = true
    · -- the reply is over, and what is held back stays where it is
      refine ⟨r, d, collect_done hdone config rounds false d, ?_, h.toOpen, .refl d⟩
      rw [Scanner.feed_of_done hdone]
    · have hopen : r.scanner.isDone = false := by simpa using hdone
      by_cases hheld : held = []
      · -- Silence ends the reply, since the scanner has something.
        subst hheld
        have hempty := hne.resolve_left (fun hc => hc rfl)
        obtain ⟨d', hread, hidle, halike⟩ :=
          receiveMore_silent h config.timeoutMs config.timeoutMs
        refine ⟨r, d', ?_, by rw [Scanner.feed_nil], hidle.toOpen, halike⟩
        simp only [collect_open hopen (htail hopen), nextRead, Bool.false_eq_true, if_false, hread,
          LinkError.isTimeout, hempty, Bool.not_false, Bool.and_self, if_true]
      · obtain ⟨chunk, d₁, hread, hchunk, hidle, halike⟩ :=
          -- a read moves part of what is held back to the scanner
          receiveMore_held h hheld config.timeoutMs config.timeoutMs
        have hscanner :
            (r.absorb chunk).scanner = (r.scanner.feed (held.take Frame.maxRead)).1 := by
          rw [Reassembly.scanner_absorb (htail hopen), hchunk]
        have hlt : (held.drop Frame.maxRead).length < n := by
          have := List.length_pos_iff.mpr hheld
          rw [List.length_drop, Frame.maxRead]
          omega
        obtain ⟨r', d', hcollect, hr', hopen', halike'⟩ :=
          ih _ hlt (r := r.absorb chunk) (Reassembly.tail_absorb (htail hopen))
            (Or.inr (hscanner ▸ Scanner.isEmpty_feed_of_ne hopen (take_ne_nil hheld))) hidle rfl
        refine ⟨r', d', ?_, ?_, hopen', halike.trans halike'⟩
        · simp only [collect_open hopen (htail hopen), nextRead, Bool.false_eq_true, if_false,
            hread]
          exact hcollect
        · rw [hr', hscanner, ← Scanner.fst_feed_append, List.take_append_drop]

/-- The first read brings what was sent at once, or else the first part of what is held back. -/
theorem nextRead_first (config : Channel.Config) {d : Device} (h : d.Open)
    (hne : d.outbox ++ d.held ≠ []) (hsize : d.outbox.length ≤ Frame.maxRead) :
    ∃ chunk d', nextRead config true d = .ok chunk d' ∧ Alike d d' ∧
      ((d.outbox = [] ∧ chunk.1 = d.held.take Frame.maxRead ∧
          d'.Idle (d.held.drop Frame.maxRead)) ∨
        (d.outbox ≠ [] ∧ chunk.1 = d.outbox ∧ d'.Idle d.held)) := by
  rw [nextRead, if_pos rfl]
  by_cases houtbox : d.outbox = []
  · -- nothing was sent yet, so it is fetched from what is held back
    have hheld : d.held ≠ [] := by rwa [houtbox, List.nil_append] at hne
    have hidle : d.Idle d.held := ⟨h, houtbox, rfl⟩
    obtain ⟨chunk, d', hfetch, hchunk, hidle', halike⟩ :=
      fetch_held hidle hheld config.timeoutMs config.timeoutMs
    rw [receive_idle hidle]
    exact ⟨chunk, d', hfetch, halike, Or.inl ⟨houtbox, hchunk, hidle'⟩⟩
  · obtain ⟨chunk, d', hreceive, hchunk, hidle', halike⟩ :=
      receive_sent h houtbox hsize config.timeoutMs config.timeoutMs
    exact ⟨chunk, d', hreceive, halike, Or.inr ⟨houtbox, hchunk, hidle'⟩⟩

/-- The first read brings a part of what is there, and the rest is held back. -/
theorem nextRead_split (config : Channel.Config) {d : Device} (h : d.Open)
    (hne : d.outbox ++ d.held ≠ []) (hsize : d.outbox.length ≤ Frame.maxRead) :
    ∃ chunk later d', nextRead config true d = .ok chunk d' ∧ d'.Idle later ∧ Alike d d' ∧
      d.outbox ++ d.held = chunk.1 ++ later := by
  obtain ⟨chunk, d', hread, halike, ⟨houtbox, hchunk, hidle⟩ | ⟨-, hchunk, hidle⟩⟩ :=
    nextRead_first config h hne hsize
  · refine ⟨chunk, _, d', hread, hidle, halike, ?_⟩
    rw [houtbox, hchunk, List.nil_append, List.take_append_drop]
  · exact ⟨chunk, _, d', hread, hidle, halike, by rw [hchunk]⟩

/-- Reading a reply of which the device has sent a part and holds the rest back. -/
private theorem readReply_device {c : Channel Device} (hinbox : c.inbox = {}) (h : c.link.Open)
    (hne : c.link.outbox ++ c.link.held ≠ []) (hsize : c.link.outbox.length ≤ Frame.maxRead) :
    ∃ inbox d', readReply c =
        .ok (scan c.config.maxReplyBytes (c.link.outbox ++ c.link.held))
          { c with inbox, link := d' } ∧
      d'.Open ∧ Alike c.link d' := by
  have hopen : (Scanner.new c.config.maxReplyBytes).isDone = false := Scanner.isDone_new _
  obtain ⟨chunk, later, d₁, hread, hidle, halike, hbytes⟩ := nextRead_split c.config h hne hsize
  have hscanner : (Reassembly.absorb ⟨Scanner.new c.config.maxReplyBytes, {}⟩ chunk).scanner =
      ((Scanner.new c.config.maxReplyBytes).feed chunk).1 := Reassembly.scanner_absorb rfl chunk
  obtain ⟨r', d', hcollect, hr', hopen', halike'⟩ :=
    collect_idle c.config (Reassembly.tail_absorb rfl)
      (Or.inr (hscanner ▸ Scanner.isEmpty_feed_of_ne hopen chunk.2.1)) hidle
      (Transport.horizon c.link)
  refine ⟨r'.inbox, d', ?_, hopen', halike.trans halike'⟩
  rw [readReply_eq, hinbox, start_empty, collect_open hopen rfl, hread]
  simp only [hcollect]
  -- the parts that were read one after another are the answer again
  rw [hr', hscanner, ← Scanner.fst_feed_append, ← hbytes, scan]

/-! ### An exchange -/

/-- What a device answers does not hang on what it has sent or holds back. -/
theorem answer_alike {d d₁ d' : Device} (h : Alike d d₁) {text : String} {reply : Option Bytes}
    (hanswer : d.answer text = (reply, d')) :
    ∃ d₁', d₁.answer text = (reply, d₁') ∧ Alike d' d₁' ∧ d₁'.outbox = d₁.outbox ∧
      d₁'.held = d₁.held ∧ d₁'.connected = d₁.connected ∧ d₁'.inbound = d₁.inbound := by
  unfold answer at hanswer ⊢
  rw [h.scripted, h.responder, h.values]
  -- a scripted reply, a responder's, or the variables
  split at hanswer
  · obtain ⟨rfl, rfl⟩ := Prod.mk.inj hanswer
    exact ⟨_, rfl, ⟨rfl, rfl, rfl, h.immediateLimit⟩, rfl, rfl, rfl, rfl⟩
  · split at hanswer
    · obtain ⟨rfl, rfl⟩ := Prod.mk.inj hanswer
      exact ⟨_, rfl, ⟨rfl, rfl, rfl, h.immediateLimit⟩, rfl, rfl, rfl, rfl⟩
    · obtain ⟨rfl, rfl⟩ := Prod.mk.inj hanswer
      exact ⟨_, rfl, h, rfl, rfl, rfl, rfl⟩

/-- The limit of a device stays the same when it answers. -/
theorem immediateLimit_answer {d d' : Device} {text : String} {reply : Option Bytes}
    (h : d.answer text = (reply, d')) : d'.immediateLimit = d.immediateLimit := by
  unfold answer at h
  split at h
  · rw [← (Prod.mk.inj h).2]
  · split at h <;> rw [← (Prod.mk.inj h).2]

/-- A flush leaves nothing waiting at either end. -/
private theorem flush_device {c : Channel Device} (h : c.link.Open) :
    ∃ d', Channel.flush c = .ok () { c with inbox := {}, link := d' } ∧ d'.Idle [] ∧
      Alike c.link d' := by
  have hsend := send_eq h Frame.complete_flush h.inbound
  rw [handle_flush] at hsend
  have hopen : (c.link.moved Frame.flush [Frame.download] []).Open := ⟨h.connected, h.inbound⟩
  have hread := read_all hopen rfl (List.cons_ne_nil _ _) (Nat.le_refl 1) c.config.timeoutMs
  refine ⟨{ c.link.moved Frame.flush [Frame.download] [] with outbox := [] }, ?_,
    ⟨⟨h.connected, h.inbound⟩, rfl, rfl⟩, ⟨rfl, rfl, rfl, rfl⟩⟩
  rw [flush_eq, hsend]
  simp only [hread]

/-- A device that gets a command sends the first part of its answer and holds the rest back, after
    what it holds back already. -/
theorem send_command {d d₁ : Device} {held : Bytes} (h : d.Idle held) {command reply : Bytes}
    (hanswer : d.answer (heard command) = (some reply, d₁)) :
    ∃ d', Link.send (Frame.ofCommand command) d = .ok () d' ∧ d'.Open ∧ Alike d₁ d' ∧
      d'.outbox = reply.take (d.immediateLimit.getD reply.length) ∧
      d'.held = held ++ reply.drop (d.immediateLimit.getD reply.length) := by
  obtain ⟨d₂, hanswer₂, -, houtbox, hheld, hconnected, hinbound⟩ :=
    answer_alike (Alike.refl d) hanswer
  obtain rfl := (Prod.mk.inj (hanswer.symm.trans hanswer₂)).2
  -- what the device does with the frame is to answer it
  have hhandle := handle_ofCommand hanswer
  have hopen : (d₁.answered command reply).Open :=
    ⟨hconnected.trans h.connected, hinbound.trans h.inbound⟩
  have hsend := send_eq h.toOpen (Frame.complete_ofCommand command)
    (by rw [hhandle]; exact hopen.inbound)
  rw [hhandle] at hsend
  refine ⟨_, hsend, hopen, ⟨rfl, rfl, rfl, rfl⟩, ?_, ?_⟩
  · change d₁.outbox ++ reply.take (d₁.immediateLimit.getD reply.length) = _
    rw [houtbox, h.outbox, immediateLimit_answer hanswer, List.nil_append]
  · change d₁.held ++ reply.drop (d₁.immediateLimit.getD reply.length) = _
    rw [hheld, h.held_eq, immediateLimit_answer hanswer]

/-- A command that is sent to a device of which nothing else is waiting gets its answer. -/
private theorem writeAndRead_device {c : Channel Device} (hinbox : c.inbox = {})
    (h : c.link.Idle [])
    {command reply : Bytes} {d' : Device}
    (hanswer : c.link.answer (heard command) = (some reply, d')) (hne : reply ≠ [])
    (hsize : (reply.take (c.link.immediateLimit.getD reply.length)).length ≤ Frame.maxRead) :
    ∃ c', writeAndRead command c =
        .ok ⟨min command.length Frame.maxPayload, scan c.config.maxReplyBytes reply⟩ c' ∧
      c'.config = c.config ∧ c'.link.Open ∧ Alike d' c'.link := by
  -- the command is out, and the device has sent the first part of its reply
  obtain ⟨d₁, hsend, hopen, halike, houtbox, hheld⟩ := send_command h hanswer
  rw [List.nil_append] at hheld
  obtain ⟨inbox, d₂, hreply, hopen₂, halike₂⟩ :=
    readReply_device (c := { c with
      link := d₁, lastWritten := min command.length Frame.maxPayload }) hinbox hopen
      (by rw [houtbox, hheld, List.take_append_drop]; exact hne) (by rw [houtbox]; exact hsize)
  rw [houtbox, hheld, List.take_append_drop] at hreply
  refine ⟨{ c with inbox, link := d₂, lastWritten := min command.length Frame.maxPayload }, ?_, rfl,
    hopen₂, halike.trans halike₂⟩
  simp only [writeAndRead, hsend, hreply]

/-- **An exchange is isolated and lossless.** The reply is that of the whole answer, whatever was
    waiting before and whatever part of the answer is held back. -/
theorem writeRead_device {c : Channel Device} (hflush : c.config.flushBeforeWrite = true)
    (h : c.link.Open) {command reply : Bytes} {d' : Device}
    (hanswer : c.link.answer (heard command) = (some reply, d')) (hne : reply ≠ [])
    (hsize : (reply.take (d'.immediateLimit.getD reply.length)).length ≤ Frame.maxRead) :
    ∃ c', writeRead command c =
        .ok ⟨min command.length Frame.maxPayload, scan c.config.maxReplyBytes reply⟩ c' ∧
      c'.config = c.config ∧ c'.link.Open ∧ Alike d' c'.link := by
  -- The flush leaves nothing in the way of the answer.
  obtain ⟨d₁, hflushed, hidle, halike⟩ := flush_device (c := { c with lastWritten := 0 }) h
  obtain ⟨d₂, hanswer₂, halike₂, -⟩ := answer_alike halike hanswer
  obtain ⟨c', hexchange, hconfig, hopen, halike'⟩ :=
    writeAndRead_device (c := { c with inbox := {}, link := d₁, lastWritten := 0 }) rfl hidle
      hanswer₂ hne (by
        rw [immediateLimit_answer hanswer, ← halike.immediateLimit] at hsize
        exact hsize)
  refine ⟨c', ?_, hconfig, hopen, halike₂.trans halike'⟩
  rw [writeRead_eq, if_pos hflush, hflushed]
  exact hexchange

/-- An exchange with a device that cannot be reached ends with the flush. -/
theorem writeRead_disconnected {c : Channel Device} (hflush : c.config.flushBeforeWrite = true)
    (h : c.link.connected = false) (command : Bytes) :
    writeRead command c = .error (.failed (.connection "device disconnected"))
      { c with inbox := {}, lastWritten := 0 } := by
  rw [writeRead_eq, if_pos hflush, flush_eq, send_disconnected h]

end Device

end PmacPoll
