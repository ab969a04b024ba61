import PmacPoll.Proofs.ReplyReading
import PmacPoll.Proofs.SingleMessage

/-!
# Replies that come in pieces

`PieceStream` is a stream of bytes from a peer that takes every write: what the peer sends comes
behind what it has sent before, and a read takes bytes of at most one piece. Besides the pieces that
are there from the start a `Peer` may send something when it is probed and when it is then asked for
its data.

Every read of a reply after the first is preceded by a probe, and the first two bytes that are
unread then count as the answer. So a peer may cut a reply as it likes if it sends each further
piece behind its answer to a probe, `Peer.Answers`; but of pieces that are unread when the probe
goes out, two bytes are lost, and an answer behind them is read as a part of the reply. In all cases
the reply is that of the bytes that are left, `Peer.heard`, which is `readReply_stream`. The main
result is `readReply_of_pieces`.
-/

namespace PmacPoll

open Running

/-- What a peer sends when it is asked for something. -/
structure PieceStream.Peer where
  /-- What it sends when it is probed for the `n`-th time. -/
  probed : Nat → List Bytes
  /-- What it sends when it is asked for its data after the `n`-th probe. -/
  fetched : Nat → List Bytes

/-- A stream of bytes, of which at most one piece is given in a read. -/
structure PieceStream where
  /-- What was sent and is not read yet. -/
  pieces : List Bytes
  peer : PieceStream.Peer
  /-- The number of probes so far. -/
  probes : Nat := 0

namespace PieceStream

/-- Has the peer receive bytes. What it sends then goes behind what is unread. -/
def receive (s : PieceStream) (data : Bytes) : PieceStream :=
  if data = Frame.readReady.encode then
    { s with pieces := s.pieces ++ s.peer.probed (s.probes + 1), probes := s.probes + 1 }
  else if data = (Frame.getBuffer Frame.maxRead).encode then
    { s with pieces := s.pieces ++ s.peer.fetched s.probes }
  else s

/-- The pieces after a read of at most `size` bytes. -/
def shorten (size : Nat) (piece : Bytes) (more : List Bytes) : List Bytes :=
  if piece.length ≤ size then more else piece.drop size :: more

/-- Gives bytes of the next piece. -/
def read (size : Nat) : Link PieceStream { bytes : Bytes // bytes.length ≤ size } := fun s =>
  match s.pieces with
  | [] => .error (.timeout "nothing left") s
  | piece :: more =>
    .ok ⟨piece.take size, List.length_take_le ..⟩ { s with pieces := shorten size piece more }

instance : Transport PieceStream where
  write data := fun s => .ok data.length (s.receive data)
  read size _ := read size
  reconnect := pure ()
  describe _ := "pieces"
  now := probes
  horizon s := s.pieces.flatten.length

/-! ### Taking bytes off the front -/

/-- Pieces that one read each can take. -/
def Fit (pieces : List Bytes) : Prop :=
  ∀ piece ∈ pieces, piece ≠ [] ∧ piece.length ≤ Frame.maxRead

instance : DecidablePred Fit := fun _ => inferInstanceAs (Decidable (∀ _ ∈ _, _))

/-- The pieces without their first `n` bytes. -/
def dropBytes : Nat → List Bytes → List Bytes
  | _, [] => []
  | n, piece :: more =>
    if piece.length ≤ n then dropBytes (n - piece.length) more else piece.drop n :: more

/-- No pieces fit. -/
private theorem fit_nil : Fit [] := nofun

/-- Pieces behind others that fit, fit. -/
private theorem Fit.append {pieces more : List Bytes} (h : Fit pieces) (hmore : Fit more) :
    Fit (pieces ++ more) := fun piece hpiece =>
  (List.mem_append.mp hpiece).elim (h piece) (hmore piece)

/-- What is left of pieces that fit, fits. -/
private theorem Fit.dropBytes {pieces : List Bytes} (h : Fit pieces) (n : Nat) :
    Fit (dropBytes n pieces) := by
  induction pieces generalizing n with
  | nil => exact h
  | cons piece more ih =>
    have hmore : Fit more := fun p hp => h p (List.mem_cons_of_mem piece hp)
    rw [PieceStream.dropBytes]
    split
    · exact ih hmore _
    · next hlong =>
      -- the rest of a piece is not empty, and no longer than the piece
      intro p hp
      rcases List.mem_cons.mp hp with rfl | hp
      · have hlength := (h piece List.mem_cons_self).2
        refine ⟨fun hnil => hlong (List.drop_eq_nil_iff.mp hnil), ?_⟩
        rw [List.length_drop]
        omega
      · exact hmore p hp

/-- To take nothing off leaves the pieces as they are. -/
private theorem dropBytes_zero {pieces : List Bytes} (h : Fit pieces) :
    dropBytes 0 pieces = pieces := by
  cases pieces with
  | nil => rfl
  | cons piece more =>
    have hpos := List.length_pos_iff.mpr (h piece List.mem_cons_self).1
    rw [dropBytes, if_neg (by omega), List.drop_zero]

/-- As many bytes as some pieces have are exactly these pieces. -/
private theorem dropBytes_append (answer : List Bytes) {more : List Bytes} (hmore : Fit more) :
    dropBytes answer.flatten.length (answer ++ more) = more := by
  induction answer with
  | nil => exact dropBytes_zero hmore
  | cons piece rest ih =>
    rw [List.cons_append, dropBytes, List.flatten_cons, List.length_append,
      if_pos (Nat.le_add_right ..), Nat.add_sub_cancel_left, ih]

/-! ### What a reply is made of -/

namespace Peer

/-- A peer that sends nothing but the pieces that are there from the start. -/
def silent : Peer where
  probed _ := []
  fetched _ := []

/-- What a peer sends is cut into pieces that fit. -/
def Fits (peer : Peer) : Prop :=
  ∀ n, Fit (peer.probed (n + 1)) ∧ Fit (peer.fetched (n + 1))

/-- Each probe is answered with two bytes, whatever they are, and the next piece comes behind them:
    at once, or when the peer is asked for the data that it says it has. -/
def Answers (peer : Peer) (more : List Bytes) : Prop :=
  ∀ n, ∃ answer, Fit answer ∧ answer.flatten.length = 2 ∧
    (peer.probed (n + 1) = answer ++ more[n]?.toList ∧ peer.fetched (n + 1) = [] ∨
      peer.probed (n + 1) = answer ∧ Link.saysReady answer.flatten = true ∧
        peer.fetched (n + 1) = more[n]?.toList)

/-- What is unread after the `n`-th probe: two bytes were taken for the answer, and if they say that
    there are data, the peer was asked for them. -/
def afterProbe (peer : Peer) (n : Nat) (pieces : List Bytes) : List Bytes :=
  let sent := pieces ++ peer.probed n
  dropBytes 2 sent ++ if Link.saysReady (sent.flatten.take 2) then peer.fetched n else []

/-- The number of probes by the time that a further read finds something, and what it finds. -/
def found (peer : Peer) (probes : Nat) (pieces : List Bytes) : Nat × List Bytes :=
  match peer.afterProbe (probes + 1) pieces with
  | [] =>
    -- Silence: there is one more probe, and a read if the answer says that there are data.
    (probes + 2,
      if Link.saysReady ((peer.probed (probes + 2)).flatten.take 2) then
        peer.afterProbe (probes + 2) []
      else [])
  | piece :: more => (probes + 1, piece :: more)

/-- What is read for the reply in at most so many further reads. -/
def further (peer : Peer) : (reads probes : Nat) → List Bytes → Bytes
  | 0, _, _ => []
  | reads + 1, probes, pieces =>
    match peer.found probes pieces with
    | (_, []) => []
    | (probes, piece :: more) => piece ++ peer.further reads probes more

/-- What is read for the reply: the first piece, which no probe precedes, and what is read in at
    most so many further reads. -/
def heard (peer : Peer) (reads : Nat) : List Bytes → Bytes
  | [] => []
  | piece :: more => piece ++ peer.further reads 0 more

/-- A peer that sends nothing more is not asked for anything that would not fit. -/
private theorem fits_silent : silent.Fits := fun _ => ⟨fit_nil, fit_nil⟩

/-- What is unread after a probe fits. -/
private theorem Fits.afterProbe {peer : Peer} (h : peer.Fits) {pieces : List Bytes}
    (hfit : Fit pieces) (n : Nat) : Fit (peer.afterProbe (n + 1) pieces) := by
  refine ((hfit.append (h n).1).dropBytes 2).append ?_
  split
  · exact (h n).2
  · exact fit_nil

/-- What a further read finds fits. -/
private theorem Fits.found {peer : Peer} (h : peer.Fits) {pieces : List Bytes} (hfit : Fit pieces)
    (probes : Nat) : Fit (peer.found probes pieces).2 := by
  have hafter := h.afterProbe hfit probes
  rw [Peer.found]
  split
  · dsimp only
    split
    · exact h.afterProbe fit_nil (probes + 1)
    · exact fit_nil
  · next hpieces =>
    rwa [hpieces] at hafter

/-- A peer that answers sends nothing that does not fit. -/
private theorem Answers.fits {peer : Peer} {more : List Bytes} (h : peer.Answers more)
    (hfit : Fit more) : peer.Fits := by
  intro n
  have hnext : Fit more[n]?.toList := fun piece hpiece =>
    hfit piece (List.mem_of_getElem? (Option.mem_toList.mp hpiece))
  obtain ⟨answer, hanswer, -, ⟨hprobed, hfetched⟩ | ⟨hprobed, -, hfetched⟩⟩ := h n
  · exact ⟨hprobed ▸ hanswer.append hnext, hfetched ▸ fit_nil⟩
  · exact ⟨hprobed ▸ hanswer, hfetched ▸ hnext⟩

/-- After the answer to a probe the next piece is unread, and nothing else. -/
private theorem Answers.afterProbe {peer : Peer} {more : List Bytes} (h : peer.Answers more)
    (hfit : Fit more) (n : Nat) : peer.afterProbe (n + 1) [] = more[n]?.toList := by
  have hnext : Fit more[n]?.toList := fun piece hpiece =>
    hfit piece (List.mem_of_getElem? (Option.mem_toList.mp hpiece))
  -- an answer comes with the next piece at once, or it says ready and the piece is fetched
  obtain ⟨answer, -, htwo, ⟨hprobed, hfetched⟩ | ⟨hprobed, hready, hfetched⟩⟩ := h n
  · have hrest := dropBytes_append answer hnext
    rw [htwo] at hrest
    simp only [Peer.afterProbe, List.nil_append, hprobed, hrest, hfetched, ite_self,
      List.append_nil]
  · have hrest := dropBytes_append answer fit_nil
    rw [htwo, List.append_nil] at hrest
    have htake : answer.flatten.take 2 = answer.flatten := List.take_of_length_le (by omega)
    simp only [Peer.afterProbe, List.nil_append, hprobed, hrest, htake, hready, if_true, hfetched]

/-- Nothing is lost to probes that are answered before the next piece is sent. -/
private theorem Answers.further {peer : Peer} {more : List Bytes} (h : peer.Answers more)
    (hfit : Fit more) (reads probes : Nat) :
    peer.further reads probes [] = ((more.drop probes).take reads).flatten := by
  induction reads generalizing probes with
  | zero => rfl
  | succ reads ih =>
    rw [Peer.further, Peer.found, h.afterProbe hfit probes]
    cases hnext : more[probes]? with
    | none =>
      -- there is no piece left, and so none behind the answer to one more probe either
      have hover := List.getElem?_eq_none_iff.mp hnext
      have hsecond : more[probes + 1]? = none := List.getElem?_eq_none_iff.mpr (by omega)
      rw [List.drop_eq_nil_of_le hover, List.take_nil, List.flatten_nil]
      simp only [Option.toList_none, h.afterProbe hfit (probes + 1), hsecond, ite_self]
    | some piece =>
      obtain ⟨hlt, rfl⟩ := List.getElem?_eq_some_iff.mp hnext
      rw [List.drop_eq_getElem_cons hlt, List.take_succ_cons, List.flatten_cons, ← ih]
      rfl

/-- Of a peer that sends nothing more, one piece is read whole. -/
private theorem heard_silent (reads : Nat) (piece : Bytes) :
    silent.heard reads [piece] = piece := by
  rw [heard]
  cases reads <;> exact List.append_nil piece

end Peer

/-! ### Calls on the stream -/

/-- A frame goes to the peer. -/
private theorem send_eq (frame : Frame) (s : PieceStream) :
    Link.send frame s = .ok () (s.receive frame.encode) := rfl

/-- A read takes bytes of the first piece. -/
private theorem read_piece {s : PieceStream} {piece : Bytes} {more : List Bytes}
    (hpieces : s.pieces = piece :: more) (size timeoutMs : Nat) :
    (Transport.read size timeoutMs : Link PieceStream _) s =
      .ok ⟨piece.take size, List.length_take_le ..⟩
        { s with pieces := shorten size piece more } := by
  change read size s = _
  simp only [read, hpieces]

/-- A read when nothing is unread is a timeout. -/
private theorem read_end {s : PieceStream} (hpieces : s.pieces = []) (size timeoutMs : Nat) :
    (Transport.read size timeoutMs : Link PieceStream _) s =
      .error (.timeout "nothing left") s := by
  change read size s = _
  simp only [read, hpieces]

/-- Gathering nothing makes no read. -/
private theorem gather_zero (s : PieceStream) (timeoutMs : Nat) :
    Link.gather timeoutMs 0 s = .ok [] s := by
  rw [Link.gather]
  rfl

/-- Gathering ends with the last piece. -/
private theorem gather_end {s : PieceStream} (hpieces : s.pieces = [])
    (timeoutMs wanted : Nat) : Link.gather timeoutMs (wanted + 1) s = .ok [] s := by
  have hend := read_end hpieces (wanted + 1) timeoutMs
  simp only [Link.gather, bind_run, attempt_run, hend]
  rfl

/-- Gathering goes on from what the first read leaves of a piece. -/
private theorem gather_cons {s : PieceStream} {byte : UInt8} {rest : Bytes} {more : List Bytes}
    (hpieces : s.pieces = (byte :: rest) :: more) (timeoutMs wanted : Nat) :
    Link.gather timeoutMs (wanted + 1) s =
      match Link.gather timeoutMs (wanted - (rest.take wanted).length)
          { s with pieces := shorten (wanted + 1) (byte :: rest) more } with
      | .ok later s' => .ok (byte :: rest.take wanted ++ later) s'
      | .error cause s' => .error cause s' := by
  have hpiece := read_piece hpieces (wanted + 1) timeoutMs
  simp only [Link.gather, bind_run, attempt_run, hpiece, List.take_succ_cons]
  cases Link.gather timeoutMs (wanted - (rest.take wanted).length)
    { s with pieces := shorten (wanted + 1) (byte :: rest) more } <;> rfl

/-- Gathering takes the first bytes off the pieces, across the cuts between them. -/
private theorem gather_eq {s : PieceStream} (hfit : Fit s.pieces) (timeoutMs wanted : Nat) :
    Link.gather timeoutMs wanted s =
      .ok (s.pieces.flatten.take wanted) { s with pieces := dropBytes wanted s.pieces } := by
  -- the number of bytes that are wanted falls with each piece that is used up
  induction wanted using Nat.strongRecOn generalizing s with
  | ind wanted ih =>
    cases wanted with
    | zero => rw [dropBytes_zero hfit, gather_zero, List.take_zero]
    | succ wanted =>
      cases hpieces : s.pieces with
      | nil =>
        have hs : { s with pieces := [] } = s := by rw [← hpieces]
        rw [gather_end hpieces, dropBytes, List.flatten_nil, List.take_nil, hs]
      | cons piece more =>
        rw [hpieces] at hfit
        obtain ⟨byte, rest, rfl⟩ := List.exists_cons_of_ne_nil (hfit piece List.mem_cons_self).1
        rw [gather_cons hpieces, shorten, dropBytes, List.length_take, List.flatten_cons,
          List.cons_append, List.take_succ_cons, List.take_append]
        by_cases hlong : (byte :: rest).length ≤ wanted + 1
        · -- the piece is used up, and more is wanted
          have hmore : Fit more := fun p hp => hfit p (List.mem_cons_of_mem _ hp)
          have hgather :=
            ih (wanted - rest.length) (by omega) (s := { s with pieces := more }) hmore
          rw [List.length_cons] at hlong
          rw [List.length_cons, if_pos hlong, if_pos hlong, Nat.min_eq_right (by omega), hgather,
            Nat.add_sub_add_right]
          rfl
        · -- the piece has more than is wanted
          rw [List.length_cons] at hlong
          have hnone : wanted - rest.length = 0 := by omega
          rw [List.length_cons, if_neg hlong, if_neg hlong, Nat.min_eq_left (by omega),
            Nat.sub_self, gather_zero, hnone, List.take_zero]
          rfl

/-- The stream after a probe, and the request for data if the answer says that there are some. -/
def probe (s : PieceStream) : PieceStream :=
  { s with pieces := s.peer.afterProbe (s.probes + 1) s.pieces, probes := s.probes + 1 }

/-- A probe takes the first two bytes that are unread for its answer. -/
private theorem isReady_eq {s : PieceStream} (hfit : Fit s.pieces) (hpeer : s.peer.Fits)
    (timeoutMs : Nat) :
    Link.isReady timeoutMs s =
      .ok (Link.saysReady ((s.pieces ++ s.peer.probed (s.probes + 1)).flatten.take 2))
        { s with
          pieces := dropBytes 2 (s.pieces ++ s.peer.probed (s.probes + 1))
          probes := s.probes + 1 } := by
  have hreceive : s.receive Frame.readReady.encode =
      { s with pieces := s.pieces ++ s.peer.probed (s.probes + 1), probes := s.probes + 1 } := by
    rw [receive, if_pos rfl]
  have hgather := gather_eq
    (s := { s with pieces := s.pieces ++ s.peer.probed (s.probes + 1), probes := s.probes + 1 })
    (hfit.append (hpeer s.probes).1) timeoutMs 2
  simp only [Link.isReady, bind_run, send_eq, hreceive, hgather]
  rfl

/-- A request for data has the peer send them behind what is unread. -/
private theorem receive_getBuffer (s : PieceStream) :
    s.receive (Frame.getBuffer Frame.maxRead).encode =
      { s with pieces := s.pieces ++ s.peer.fetched s.probes } := by
  rw [receive, if_neg (by decide), if_pos rfl]

/-! ### Reads of a reply -/

/-- A read takes a piece that fits whole. -/
private theorem receive_piece {s : PieceStream} {piece : Bytes} {more : List Bytes}
    (hpieces : s.pieces = piece :: more) (hfit : Fit s.pieces) (probeMs timeoutMs : Nat) :
    ∃ chunk, Link.receive probeMs Frame.maxRead timeoutMs s =
      .ok chunk { s with pieces := more } ∧ chunk.1 = piece := by
  rw [hpieces] at hfit
  obtain ⟨hne, hlength⟩ := hfit piece List.mem_cons_self
  have hread := read_piece hpieces Frame.maxRead timeoutMs
  simp only [List.take_of_length_le hlength, shorten, if_pos hlength] at hread
  refine ⟨⟨piece, hne, hlength⟩, ?_, rfl⟩
  simp only [Link.receive, bind_run, attempt_run, hread, dif_neg hne]
  rfl

/-- A further read probes first, and reads what is unread then. -/
private theorem receiveMore_eq {s : PieceStream} (hfit : Fit s.pieces) (hpeer : s.peer.Fits)
    (probeMs timeoutMs : Nat) :
    Link.receiveMore probeMs Frame.maxRead timeoutMs s =
      Link.receive probeMs Frame.maxRead timeoutMs s.probe := by
  have hready := isReady_eq hfit hpeer probeMs
  simp only [Link.receiveMore, bind_run, hready, probe, Peer.afterProbe]
  split
  · simp only [bind_run, send_eq, receive_getBuffer]
  · rw [List.append_nil]

/-- When nothing is unread, a read comes to a probe and what follows it. -/
private theorem receive_eq_fetch {s : PieceStream} (hpieces : s.pieces = [])
    (probeMs timeoutMs : Nat) :
    Link.receive probeMs Frame.maxRead timeoutMs s =
      Link.fetch probeMs Frame.maxRead timeoutMs s := by
  have hread := read_end hpieces Frame.maxRead timeoutMs
  simp only [Link.receive, bind_run, attempt_run, hread]
  rfl

/-- After a silence the peer is probed. If it says that it has data, it is asked for them and there
    is another read. -/
private theorem receive_of_ready {s : PieceStream} (hpieces : s.pieces = []) (hpeer : s.peer.Fits)
    (hready : Link.saysReady ((s.peer.probed (s.probes + 1)).flatten.take 2) = true)
    (probeMs timeoutMs : Nat) :
    Link.receive probeMs Frame.maxRead timeoutMs s =
      match (Transport.read Frame.maxRead timeoutMs : Link PieceStream _) s.probe with
      | .ok bytes s' =>
        if h : bytes.1 = [] then .error (.timeout "empty retry read") s'
        else .ok ⟨bytes.1, h, bytes.2⟩ s'
      | .error cause s' => .error cause s' := by
  have hprobe : s.probe = { s with
      pieces := dropBytes 2 (s.peer.probed (s.probes + 1)) ++ s.peer.fetched (s.probes + 1)
      probes := s.probes + 1 } := by
    simp only [probe, Peer.afterProbe, hpieces, List.nil_append, hready, if_true]
  -- the bytes that say ready are taken, and the fetch goes out
  have hasked := isReady_eq (hpieces ▸ fit_nil) hpeer probeMs
  rw [hpieces, List.nil_append, hready] at hasked
  rw [receive_eq_fetch hpieces, hprobe]
  simp only [Link.fetch, bind_run, hasked, if_true, send_eq, receive_getBuffer]
  cases (Transport.read Frame.maxRead timeoutMs : Link PieceStream _) { s with
      pieces := dropBytes 2 (s.peer.probed (s.probes + 1)) ++ s.peer.fetched (s.probes + 1)
      probes := s.probes + 1 } with
  | ok bytes s' =>
    dsimp only
    split <;> rfl
  | error cause s' => rfl

/-- A silence after which the peer does not say that it has data is a timeout. -/
private theorem receive_of_idle {s : PieceStream} (hpieces : s.pieces = []) (hpeer : s.peer.Fits)
    (hidle : ¬ Link.saysReady ((s.peer.probed (s.probes + 1)).flatten.take 2) = true)
    (probeMs timeoutMs : Nat) :
    ∃ cause s', Link.receive probeMs Frame.maxRead timeoutMs s = .error cause s' ∧
      cause.isTimeout = true := by
  have hasked := isReady_eq (hpieces ▸ fit_nil) hpeer probeMs
  rw [hpieces, List.nil_append] at hasked
  rw [receive_eq_fetch hpieces]
  simp only [Link.fetch, bind_run, hasked, if_neg hidle, throw_run]
  exact ⟨_, _, rfl, rfl⟩

/-- A further read takes the first piece that it finds. -/
private theorem receiveMore_of_found {s : PieceStream} (hfit : Fit s.pieces) (hpeer : s.peer.Fits)
    {probes : Nat} {piece : Bytes} {more : List Bytes}
    (hfound : s.peer.found s.probes s.pieces = (probes, piece :: more)) (probeMs timeoutMs : Nat) :
    ∃ chunk, Link.receiveMore probeMs Frame.maxRead timeoutMs s =
      .ok chunk { s with pieces := more, probes } ∧ chunk.1 = piece := by
  rw [receiveMore_eq hfit hpeer]
  have hafter : Fit s.probe.pieces := hpeer.afterProbe hfit s.probes
  rw [Peer.found] at hfound
  split at hfound
  · next hnone =>
    -- nothing was unread after the first probe, and the second one has brought the piece
    obtain ⟨rfl, hsecond⟩ := Prod.mk.inj hfound
    split at hsecond
    · next hready =>
      have hsecondFit := hpeer.afterProbe fit_nil (s.probes + 1)
      rw [hsecond] at hsecondFit
      obtain ⟨hne, hlength⟩ := hsecondFit piece List.mem_cons_self
      have hprobe : s.probe.probe.pieces = piece :: more := by
        rw [probe, show s.probe.pieces = [] from hnone]
        exact hsecond
      have hread := read_piece hprobe Frame.maxRead timeoutMs
      simp only [List.take_of_length_le hlength, shorten, if_pos hlength] at hread
      refine ⟨⟨piece, hne, hlength⟩, ?_, rfl⟩
      have hreceive :=
        receive_of_ready (s := s.probe) hnone hpeer hready probeMs timeoutMs
      rw [hreceive, hread]
      exact dif_neg hne
    · exact nomatch hsecond
  · next hpieces =>
    obtain ⟨rfl, hsame⟩ := Prod.mk.inj hfound
    obtain ⟨rfl, rfl⟩ := List.cons.inj hsame
    exact receive_piece hpieces hafter probeMs timeoutMs

/-- A further read that finds nothing is a timeout. -/
private theorem receiveMore_of_none {s : PieceStream} (hfit : Fit s.pieces) (hpeer : s.peer.Fits)
    (hnone : (s.peer.found s.probes s.pieces).2 = []) (probeMs timeoutMs : Nat) :
    ∃ cause s', Link.receiveMore probeMs Frame.maxRead timeoutMs s = .error cause s' ∧
      cause.isTimeout = true := by
  rw [receiveMore_eq hfit hpeer]
  rw [Peer.found] at hnone
  -- there was something, or the peer does not say ready, or it says so and gives nothing
  split at hnone
  · next hsilence =>
    split at hnone
    · next hready =>
      have hprobe : s.probe.probe.pieces = [] := by
        rw [probe, show s.probe.pieces = [] from hsilence]
        exact hnone
      have hreceive :=
        receive_of_ready (s := s.probe) hsilence hpeer hready probeMs timeoutMs
      rw [hreceive, read_end hprobe]
      exact ⟨_, _, rfl, rfl⟩
    · next hidle => exact receive_of_idle (s := s.probe) hsilence hpeer hidle probeMs timeoutMs
  · exact nomatch hnone

/-! ### A reply -/

open Channel Reply

/-- Reading on in the middle of a reply: the scanner is fed what further reads bring. There are no
    more of them than the scanner has room for bytes, since each brings one at least. -/
private theorem collect_pieces (config : Channel.Config) {r : Reassembly} {s : PieceStream}
    (htail : r.scanner.isDone = false → r.inbox.tail = none) (hempty : r.scanner.isEmpty = false)
    (hfit : Fit s.pieces) (hpeer : s.peer.Fits) {reads : Nat} (hroom : r.scanner.room ≤ reads)
    (rounds : Nat) :
    ∃ r' s', collect config rounds false r s = .ok () (r', s') ∧
      r'.scanner = (r.scanner.feed (s.peer.further reads s.probes s.pieces)).1 := by
  -- on the number of reads that there can still be
  induction reads generalizing r s with
  | zero =>
    cases hdone : r.scanner.isDone with
    | true =>
      exact ⟨r, s, collect_done hdone config rounds false s, by rw [Scanner.feed_of_done hdone]⟩
    | false => exact absurd (Scanner.room_pos hdone) (by omega)
  | succ reads ih =>
    cases hopen : r.scanner.isDone with
    | true =>
      exact ⟨r, s, collect_done hopen config rounds false s, by rw [Scanner.feed_of_done hopen]⟩
    | false =>
      have hcollect := collect_open hopen (htail hopen) config rounds false s
      rw [nextRead, if_neg Bool.false_ne_true] at hcollect
      have hfoundFit := hpeer.found hfit s.probes
      cases hfound : s.peer.found s.probes s.pieces with
      | mk probes pieces =>
        cases pieces with
        | nil =>
          -- silence ends the reply, since the scanner has something
          obtain ⟨cause, s', hsilence, htimeout⟩ := receiveMore_of_none hfit hpeer
            (congrArg Prod.snd hfound) config.timeoutMs config.timeoutMs
          refine ⟨r, s', ?_, by rw [Peer.further, hfound, Scanner.feed_nil]⟩
          rw [hcollect, hsilence]
          simp only [htimeout, hempty, Bool.not_false, Bool.and_self, if_true]
        | cons piece more =>
          rw [hfound] at hfoundFit
          obtain ⟨chunk, hchunk, heq⟩ := receiveMore_of_found hfit hpeer hfound
            config.timeoutMs config.timeoutMs
          have hne := (hfoundFit piece List.mem_cons_self).1
          have hscanner : (r.absorb chunk).scanner = (r.scanner.feed piece).1 := by
            rw [Reassembly.scanner_absorb (htail hopen), heq]
          have hless : (r.absorb chunk).scanner.room ≤ reads := by
            have hlt := Scanner.room_feed_lt hopen hne
            rw [hscanner]
            omega
          obtain ⟨r', s', hrest, hr'⟩ := ih (r := r.absorb chunk)
            (s := { s with pieces := more, probes }) (Reassembly.tail_absorb (htail hopen))
            (hscanner ▸ Scanner.isEmpty_feed hempty piece)
            (fun p hp => hfoundFit p (List.mem_cons_of_mem piece hp)) hpeer hless
          refine ⟨r', s', ?_, ?_⟩
          · rw [hcollect, hchunk]
            exact hrest
          · rw [hr', hscanner, ← Scanner.fst_feed_append, Peer.further, hfound]

/-- A channel with nothing waiting, over a stream with some pieces in it. -/
def channel (config : Channel.Config) (lastWritten : Nat) (peer : Peer) (pieces : List Bytes) :
    Channel PieceStream where
  link := { pieces, peer }
  config := config
  lastWritten := lastWritten

/-- The first read of a reply takes the first piece, before there is any probe. -/
private theorem readReply_first (config : Channel.Config) (lastWritten : Nat) (peer : Peer)
    {piece : Bytes} {more : List Bytes} (hfit : Fit (piece :: more)) :
    ∃ r : Reassembly, r.scanner = ((Scanner.new config.maxReplyBytes).feed piece).1 ∧
      (r.scanner.isDone = false → r.inbox.tail = none) ∧ r.scanner.isEmpty = false ∧
      ∀ r' s', collect config (piece :: more).flatten.length false r
          ({ pieces := more, peer } : PieceStream) = .ok () (r', s') →
        readReply (channel config lastWritten peer (piece :: more)) =
          .ok r'.scanner.finish { link := s', config, inbox := r'.inbox, lastWritten } := by
  have hopen : (Scanner.new config.maxReplyBytes).isDone = false := Scanner.isDone_new _
  obtain ⟨chunk, hchunk, heq⟩ := receive_piece (s := { pieces := piece :: more, peer }) rfl hfit
    config.timeoutMs config.timeoutMs
  -- the first piece is all that the first read brings
  have hscanner : (Reassembly.absorb ⟨Scanner.new config.maxReplyBytes, {}⟩ chunk).scanner =
      ((Scanner.new config.maxReplyBytes).feed piece).1 := by
    rw [Reassembly.scanner_absorb rfl, heq]
  refine ⟨Reassembly.absorb ⟨Scanner.new config.maxReplyBytes, {}⟩ chunk, hscanner,
    Reassembly.tail_absorb rfl,
    hscanner ▸ Scanner.isEmpty_feed_of_ne hopen (hfit piece List.mem_cons_self).1, ?_⟩
  intro r' s' hcollect
  have hfirst := collect_open (r := ⟨Scanner.new config.maxReplyBytes, {}⟩) hopen rfl config
    (piece :: more).flatten.length true ({ pieces := piece :: more, peer } : PieceStream)
  rw [nextRead, if_pos rfl, hchunk] at hfirst
  simp only [hcollect] at hfirst
  have hstart : collect (channel config lastWritten peer (piece :: more)).config
      (Transport.horizon (channel config lastWritten peer (piece :: more)).link) true
      (.start (channel config lastWritten peer (piece :: more)).config.maxReplyBytes
        (channel config lastWritten peer (piece :: more)).inbox)
      (channel config lastWritten peer (piece :: more)).link = .ok () (r', s') := hfirst
  rw [readReply_eq, hstart]
  rfl

/-- A reply is that of the bytes which are left of the stream when probes have taken theirs. Reads
    beyond the size limit have no part in it. -/
theorem readReply_stream (config : Channel.Config) (lastWritten : Nat) {peer : Peer}
    (hpeer : peer.Fits) {pieces : List Bytes} (hne : pieces ≠ []) (hfit : Fit pieces) {reads : Nat}
    (hreads : max config.maxReplyBytes 1 ≤ reads) :
    ∃ c, readReply (channel config lastWritten peer pieces) =
      .ok (scan config.maxReplyBytes (peer.heard reads pieces)) c := by
  obtain ⟨piece, more, rfl⟩ := List.exists_cons_of_ne_nil hne
  obtain ⟨r, hscanner, htail, hempty, hread⟩ := readReply_first config lastWritten peer hfit
  -- each read that brings something leaves the scanner less room
  have hroom : r.scanner.room ≤ reads := by
    have hlt := Scanner.room_feed_lt (Scanner.isDone_new config.maxReplyBytes)
      (hfit piece List.mem_cons_self).1
    have hnew : (Scanner.new config.maxReplyBytes).room = max config.maxReplyBytes 1 + 1 := rfl
    rw [hscanner]
    omega
  obtain ⟨r', s', hcollect, hr'⟩ := collect_pieces config (s := { pieces := more, peer }) htail
    hempty (fun p hp => hfit p (List.mem_cons_of_mem piece hp)) hpeer hroom
    (piece :: more).flatten.length
  have hreply := hread r' s' hcollect
  rw [hr', hscanner, ← Scanner.fst_feed_append] at hreply
  exact ⟨_, hreply⟩

/-- When the first piece closes a reply, it is all that counts, whatever the peer sends. -/
private theorem readReply_of_closed (config : Channel.Config) (lastWritten : Nat) (peer : Peer)
    {piece : Bytes} {more : List Bytes} (hfit : Fit (piece :: more))
    (hdone : ((Scanner.new config.maxReplyBytes).feed piece).1.isDone = true) :
    ∃ c, readReply (channel config lastWritten peer (piece :: more)) =
      .ok (scan config.maxReplyBytes piece) c := by
  obtain ⟨r, hscanner, -, -, hread⟩ := readReply_first config lastWritten peer hfit
  have hclosed : r.scanner.isDone = true := hscanner ▸ hdone
  have hreply := hread _ _ (collect_done hclosed config _ false _)
  rw [hscanner] at hreply
  exact ⟨_, hreply⟩

/-- A peer that sends nothing but the two lines of a reply, and cuts them apart: the second line is
    lost to the probe between them. -/
theorem readReply_cut_between_lines :
    let whole : Bytes := [0x31, 0x32, 0x0D, 0x33, 0x34, 0x0D, 0x06]
    let pieces : List Bytes := [[0x31, 0x32, 0x0D], [0x33, 0x34, 0x0D, 0x06]]
    -- the bytes are one message, and the pieces are its parts
    (∃ closed, (Scanner.new 1024).feed whole = (closed, []) ∧ closed.isDone = true) ∧
    ((Scanner.new 1024).feed whole.dropLast).1.isDone = false ∧
    pieces.flatten = whole ∧
    ∃ c c', readReply (channel {} 0 .silent [whole]) = .ok ⟨whole, .ack⟩ c ∧
      readReply (channel {} 0 .silent pieces) = .ok ⟨[0x31, 0x32, 0x0D, 0x0D, 0x06], .ack⟩ c' := by
  intro whole pieces
  obtain ⟨c, hc⟩ := readReply_stream {} 0 Peer.fits_silent (List.cons_ne_nil whole [])
    (by decide) (Nat.le_refl 1024)
  have hne : pieces ≠ [] := List.cons_ne_nil _ _
  obtain ⟨c', hc'⟩ := readReply_stream {} 0 Peer.fits_silent hne (by decide) (Nat.le_refl 1024)
  exact ⟨⟨_, rfl, rfl⟩, rfl, rfl, c, c', hc, hc'⟩

/-- Parts of what one read can take. -/
private theorem fit_of_flatten {pieces : List Bytes} (hpieces : ∀ piece ∈ pieces, piece ≠ [])
    (hlength : pieces.flatten.length ≤ Frame.maxRead) : Fit pieces := by
  intro piece hpiece
  have hle := (List.sublist_flatten_of_mem hpiece).length_le
  exact ⟨hpieces piece hpiece, by omega⟩

/-- **A reply and its pieces.** The reply is the same as in one read if the peer sends each further
    piece behind the two bytes of its answer to a probe. It is the same, whatever else the peer
    sends, if the first piece closes it. In general the first two bytes that are unread after a
    probe count as its answer, and the reply is that of the others: of pieces that were sent before
    the probe, two bytes are lost to it. -/
theorem readReply_of_pieces (config : Channel.Config) (lastWritten : Nat) {piece : Bytes}
    {more : List Bytes} (hpieces : ∀ p ∈ piece :: more, p ≠ [])
    (hlength : (piece :: more).flatten.length ≤ Frame.maxRead) :
    ∃ whole,
      (∃ c, readReply (channel config lastWritten .silent [(piece :: more).flatten]) =
        .ok whole c) ∧
      (∀ peer : Peer, peer.Answers more →
        ∃ c, readReply (channel config lastWritten peer [piece]) = .ok whole c) ∧
      (((Scanner.new config.maxReplyBytes).feed piece).1.isDone = true →
        ∀ peer, ∃ c, readReply (channel config lastWritten peer (piece :: more)) =
          .ok whole c) ∧
      ∀ peer : Peer, peer.Fits → ∀ reads, max config.maxReplyBytes 1 ≤ reads →
        ∃ c, readReply (channel config lastWritten peer (piece :: more)) =
          .ok (scan config.maxReplyBytes (peer.heard reads (piece :: more))) c := by
  have hfit := fit_of_flatten hpieces hlength
  have hmore : Fit more := fun p hp => hfit p (List.mem_cons_of_mem piece hp)
  have hone : Fit [piece] := fun p hp => hfit p (List.mem_singleton.mp hp ▸ List.mem_cons_self)
  have hwhole : Fit [(piece :: more).flatten] := by
    intro p hp
    obtain rfl := List.mem_singleton.mp hp
    refine ⟨?_, hlength⟩
    rw [List.flatten_cons]
    exact List.append_ne_nil_of_left_ne_nil (hpieces piece List.mem_cons_self) _
  refine ⟨scan config.maxReplyBytes (piece :: more).flatten, ?_, ?_, ?_, ?_⟩
  · have hread := readReply_stream config lastWritten Peer.fits_silent (List.cons_ne_nil _ [])
      hwhole (Nat.le_refl _)
    rwa [Peer.heard_silent] at hread
  · intro peer hanswers
    -- as many reads as there are pieces, and no fewer than count
    have hread := readReply_stream config lastWritten (hanswers.fits hmore)
      (List.cons_ne_nil piece []) hone (Nat.le_max_left (max config.maxReplyBytes 1) more.length)
    rwa [Peer.heard, hanswers.further hmore, List.drop_zero,
      List.take_of_length_le (Nat.le_max_right ..)] at hread
  · intro hdone peer
    rw [List.flatten_cons, scan_append hdone]
    exact readReply_of_closed config lastWritten peer hfit hdone
  · intro peer hpeer reads hreads
    exact readReply_stream config lastWritten hpeer (List.cons_ne_nil _ _) hfit hreads

namespace Peer

/-- A peer that holds a piece back: it says so at the first probe, and sends the piece when it is
    asked for it. -/
def holding (piece : Bytes) : Peer where
  probed n := [[if n = 1 then 1 else 0, 0]]
  fetched n := if n = 1 then [piece] else []

/-- A peer that says at each probe that it has data, and has sent them before. -/
def ahead : Peer where
  probed _ := [[1, 0]]
  fetched _ := []

/-- A peer that holds a piece back answers as it is expected to. -/
private theorem answers_holding (piece : Bytes) : (holding piece).Answers [piece] := by
  intro n
  cases n with
  | zero => exact ⟨[[1, 0]], by decide, rfl, Or.inr ⟨rfl, rfl, rfl⟩⟩
  | succ n => exact ⟨[[0, 0]], by decide, rfl, Or.inl ⟨by simp [holding], by simp [holding]⟩⟩

end Peer

/-- A reply of two lines. It is whole if the second line comes after the probe, and loses two bytes
    if that line was sent before, though the probe is answered; a limit of three bytes closes it
    with the first line. -/
theorem readReply_of_pieces_two :
    let first : Bytes := [0x31, 0x32, 0x0D]
    let second : Bytes := [0x33, 0x34, 0x0D, 0x06]
    ((∀ p ∈ [first, second], p ≠ []) ∧ [first, second].flatten.length ≤ Frame.maxRead) ∧
    (∃ c, readReply (channel {} 0 (.holding second) [first]) = .ok ⟨first ++ second, .ack⟩ c) ∧
    (∃ c, readReply (channel {} 0 .ahead [first, second]) =
      .ok ⟨[0x31, 0x32, 0x0D, 0x0D, 0x06], .ack⟩ c) ∧
    ∃ c, readReply (channel { maxReplyBytes := 3 } 0 .ahead [first, second]) =
      .ok ⟨[0x31, 0x32, 0x06], .truncated⟩ c := by
  intro first second
  have hpieces : ∀ p ∈ [first, second], p ≠ [] := by decide
  have hlength : [first, second].flatten.length ≤ Frame.maxRead := by decide
  have hahead : Peer.ahead.Fits := fun _ => ⟨(by decide : Fit [[1, 0]]), fit_nil⟩
  -- a stream of one piece has the reply that the bytes have
  have hone : ∀ limit, ∃ c, readReply (channel { maxReplyBytes := limit } 0 .silent
      [[first, second].flatten]) = .ok (scan limit [first, second].flatten) c := fun limit => by
    obtain ⟨c, hc⟩ := readReply_stream { maxReplyBytes := limit } 0 Peer.fits_silent
      (List.cons_ne_nil [first, second].flatten []) (by decide) (Nat.le_refl (max limit 1))
    rw [Peer.heard_silent] at hc
    exact ⟨c, hc⟩
  refine ⟨⟨hpieces, hlength⟩, ?_, ?_, ?_⟩
  · -- the second piece is sent when the peer is asked for it
    obtain ⟨whole, ⟨c, hwhole⟩, hanswers, -, -⟩ :=
      readReply_of_pieces {} 0 hpieces hlength
    obtain ⟨c', hc'⟩ := hone 1024
    obtain ⟨rfl, -⟩ := EStateM.Result.ok.inj (hwhole.symm.trans hc')
    exact hanswers (.holding second) (Peer.answers_holding second)
  · -- the answer to the probe is queued behind the second piece
    obtain ⟨-, -, -, -, hgeneral⟩ := readReply_of_pieces {} 0 hpieces hlength
    exact hgeneral .ahead hahead 1024 (Nat.le_refl 1024)
  · -- the first piece closes the reply
    obtain ⟨whole, ⟨c, hwhole⟩, -, hclosed, -⟩ :=
      readReply_of_pieces { maxReplyBytes := 3 } 0 hpieces hlength
    obtain ⟨c', hc'⟩ := hone 3
    obtain ⟨rfl, -⟩ := EStateM.Result.ok.inj (hwhole.symm.trans hc')
    exact hclosed rfl .ahead

end PieceStream

end PmacPoll
