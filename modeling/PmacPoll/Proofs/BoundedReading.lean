import PmacPoll.Proofs.SilentReplies

/-!
# Reading a reply comes to an end

The loop that reads a reply has no counter. `Passes` is that loop, pass after pass and with no limit
on them. It ends all the same, on every transport, if nothing is to be skipped when it begins: a
read that succeeds brings a byte or more, the scanner takes some of what it brings, and either the
reply is done then or there is less space for it, `Scanner.Advances`. So there are no more passes
than bytes that a reply may have, `Channel.readReply_bounded`.

A pass is made of a few calls, with at most two reads for each probe, `Link.isReady_reads`. So the
calls of the whole loop are bounded too.
-/

namespace PmacPoll

open Running Reply

variable {ε σ α β : Type}

/-! ### What a scanner gets from a read -/

namespace Reply.Scanner

/-- The reply is done, or there is some space for it, but less than this. -/
def Within (space : Nat) (s : Scanner) : Prop :=
  s.isDone = true ∨ 0 < s.remaining ∧ s.remaining < space

/-- What becomes of a scanner that is given some input: it takes a part that is not empty, and all
    of it if that leaves the reply unfinished; and the reply is done, or there is less space. -/
structure Advances (s : Scanner) (input : Bytes) (s' : Scanner) : Prop where
  takes : ∃ used rest, input = used ++ rest ∧ used ≠ [] ∧ s.feed input = (s', rest) ∧
    (s'.isDone = false → rest = [])
  within : s'.Within s.remaining

/-- A byte ends the reply, or takes a place of those that are left. -/
private theorem within_push {s : Scanner} (hopen : s.isDone = false) (byte : UInt8) :
    (s.push byte).Within s.remaining := by
  obtain ⟨inBlock, hphase⟩ := phase_of_open hopen
  unfold push
  rw [hphase]
  dsimp only
  split
  · exact .inl rfl
  · split
    · split <;> exact .inl rfl
    · split
      · -- the byte is stored, and there is a place behind it
        next hroom =>
        refine .inr ?_
        simp only [remaining, size, Array.size_push] at hroom ⊢
        omega
      · exact .inl rfl

/-- What is within some space is within more of it. -/
theorem Within.mono {s : Scanner} {space space' : Nat} (h : s.Within space)
    (hle : space ≤ space') : s.Within space' :=
  h.imp_right fun hless => ⟨hless.1, Nat.lt_of_lt_of_le hless.2 hle⟩

/-- Later bytes take no place back. -/
private theorem within_feed {s : Scanner} {space : Nat} (h : s.Within space) (input : Bytes) :
    (s.feed input).1.Within space := by
  -- on the bytes that are fed, each of which is pushed unless the reply is done
  induction input generalizing s with
  | nil =>
    rw [feed_nil]
    exact h
  | cons byte rest ih =>
    by_cases hdone : s.isDone = true
    · rw [feed_of_done hdone]
      exact h
    · have hopen : s.isDone = false := by simpa using hdone
      have hlt := (h.resolve_left hdone).2
      rw [feed_cons hopen]
      exact ih ((within_push hopen byte).mono (Nat.le_of_lt hlt))

/-- An open scanner that is given bytes gets on with the reply. -/
private theorem feed_advances {s : Scanner} (hopen : s.isDone = false) {input : Bytes}
    (hne : input ≠ []) : s.Advances input (s.feed input).1 := by
  refine ⟨?_, ?_⟩
  · obtain ⟨s', used, rest, rfl, hfeed, hused⟩ := feed_split s input
    have hrest : s'.isDone = false → rest = [] := by
      intro hopen'
      have hall := feed_rest_of_open (s := s) (by rw [hfeed]; exact hopen')
      rwa [hfeed] at hall
    rw [hfeed]
    refine ⟨used, rest, rfl, ?_, rfl, hrest⟩
    -- a scanner that takes nothing is as open as before, so nothing is left of the input either
    rintro rfl
    rw [feed_nil] at hused
    obtain ⟨rfl, -⟩ := Prod.mk.inj hused
    exact hne (hrest hopen)
  · cases input with
    | nil => exact absurd rfl hne
    | cons byte rest =>
      rw [feed_cons hopen]
      exact within_feed (within_push hopen byte) rest

end Reply.Scanner

/-! ### How many calls are made -/

/-- The operation puts at most so many calls on record. -/
def MakesAtMost (count : Nat) (x : Link (Recorded σ) α) (y : Link σ α) : Prop :=
  Makes Recorded.mk x y fun calls _ => calls.length ≤ count

/-- The calls are those of the run, so what is known of them holds together. -/
theorem Makes.and {x : Link (Recorded σ) α} {y : Link σ α}
    {P Q : List Call → Except LinkError α → Prop} (hP : Makes Recorded.mk x y P)
    (hQ : Makes Recorded.mk x y Q) :
    Makes Recorded.mk x y fun calls r => P calls r ∧ Q calls r := by
  intro s before
  obtain ⟨calls, hrun, hcalls⟩ := hP s before
  obtain ⟨calls', hrun', hcalls'⟩ := hQ s before
  obtain rfl : calls = calls' := by
    have hsame := congrArg (fun run => (finalState run).calls) (hrun.symm.trans hrun')
    cases hy : y s <;> simpa [hy, onState, finalState] using hsame
  exact ⟨calls, hrun, hcalls, hcalls'⟩

namespace MakesAtMost

variable {x : Link (Recorded σ) α} {y : Link σ α} {m n : Nat}

/-- A bound may be raised. -/
theorem mono (h : MakesAtMost m x y) (hle : m ≤ n) : MakesAtMost n x y :=
  Makes.mono h fun _ _ hcalls => Nat.le_trans hcalls hle

/-- Giving a value makes no call. -/
theorem pure (a : α) : MakesAtMost 0 (Pure.pure a : Link (Recorded σ) α) (Pure.pure a) :=
  Makes.pure a (Nat.le_refl 0)

/-- Neither does failing. -/
theorem throw (cause : LinkError) :
    MakesAtMost 0 (MonadExcept.throw cause : Link (Recorded σ) α) (MonadExcept.throw cause) :=
  Makes.throw cause (Nat.le_refl 0)

/-- What is done one after another makes the calls of both. -/
theorem bind {f : α → Link (Recorded σ) β} {g : α → Link σ β} (h : MakesAtMost m x y)
    (hf : ∀ a, MakesAtMost n (f a) (g a)) : MakesAtMost (m + n) (x >>= f) (y >>= g) := by
  refine Makes.bind h hf ?_ ?_
  · intro calls a later r hcalls hlater
    rw [List.length_append]
    omega
  · intro calls cause hcalls
    omega

/-- Catching a failure makes no call of its own. -/
theorem attempt (h : MakesAtMost m x y) :
    MakesAtMost m (Link.attempt x) (Link.attempt y) := by
  refine (Makes.attempt h).mono ?_
  rintro calls r ⟨r', -, hcalls⟩
  exact hcalls

/-- So many calls are added to the record at most. -/
private theorem calls_le (h : MakesAtMost m x y) (s : Recorded σ) :
    (finalState (x s)).calls.length ≤ s.calls.length + m := by
  obtain ⟨calls, hrun, hcalls⟩ := h s.link s.calls
  rw [show x s = _ from hrun]
  cases y s.link <;> simpa [onState, finalState] using hcalls

end MakesAtMost

namespace Link

variable [Transport σ]

/-- A frame is one call. -/
theorem send_atMost (frame : Frame) :
    MakesAtMost 1 (send (σ := Recorded σ) frame) (send (σ := σ) frame) := by
  refine (send_calls frame).mono ?_
  rintro calls r ⟨outcome, rfl, -⟩
  exact Nat.le_refl 1

/-- A read is one call. -/
theorem read_atMost (size timeoutMs : Nat) :
    MakesAtMost 1 (Transport.read size timeoutMs : Link (Recorded σ) _)
      (Transport.read size timeoutMs : Link σ _) := by
  refine (read_makes size timeoutMs).mono ?_
  rintro calls r rfl
  exact Nat.le_refl 1

/-- So many bytes take no more reads: one that brings nothing is the last. -/
theorem gather_atMost (timeoutMs wanted : Nat) :
    MakesAtMost wanted (gather (σ := Recorded σ) timeoutMs wanted)
      (gather (σ := σ) timeoutMs wanted) := by
  -- on the bytes that are wanted: the reads after one that brings some want fewer
  induction wanted using Nat.strongRecOn with
  | ind wanted ih =>
    cases wanted with
    | zero =>
      rw [gather, gather]
      exact .pure []
    | succ wanted =>
      rw [gather, gather]
      refine ((read_atMost _ timeoutMs).attempt.bind (n := wanted) ?_).mono (by omega)
      rintro (cause | ⟨_ | ⟨byte, more⟩, hsize⟩)
      · dsimp only
        split
        · exact (MakesAtMost.pure []).mono (Nat.zero_le _)
        · exact (MakesAtMost.throw cause).mono (Nat.zero_le _)
      · exact (MakesAtMost.pure []).mono (Nat.zero_le _)
      · -- one read is made, and one byte less is wanted at least
        have hlater := ih (wanted - more.length) (by omega)
        refine (hlater.bind fun later => .pure (byte :: more ++ later)).mono ?_
        omega

/-- A probe is a frame and no more than two reads of its answer. -/
theorem isReady_atMost (timeoutMs : Nat) :
    MakesAtMost 3 (isReady (σ := Recorded σ) timeoutMs) (isReady (σ := σ) timeoutMs) :=
  (send_atMost Frame.readReady).bind fun _ =>
    (gather_atMost timeoutMs 2).bind fun answer => .pure (saysReady answer)

/-- A probe is one write, and then at most two reads for the two bytes of its answer. -/
theorem isReady_reads (timeoutMs : Nat) :
    Makes Recorded.mk (isReady (σ := Recorded σ) timeoutMs) (isReady (σ := σ) timeoutMs)
      fun calls _ => ∃ outcome reads, calls = .write Frame.readReady.encode outcome :: reads ∧
        (∀ call ∈ reads, call.isRead = true) ∧ reads.length ≤ 2 := by
  refine ((isReady_makes timeoutMs).and (isReady_atMost timeoutMs)).mono ?_
  rintro calls r ⟨⟨outcome, reads, rfl, hprobe⟩, hlength⟩
  exact ⟨outcome, reads, rfl, hprobe.reads, Nat.le_of_succ_le_succ hlength⟩

/-- A probe, and what follows it with a fetch or without. -/
theorem probed_atMost {n : Nat} {f k : Link (Recorded σ) α} {g l : Link σ α}
    (timeoutMs size : Nat) (hfetch : MakesAtMost n f g) (hnone : MakesAtMost n k l) :
    MakesAtMost (n + 4)
      (isReady timeoutMs >>= fun ready =>
        if ready then send (Frame.getBuffer size) >>= fun _ => f else k)
      (isReady timeoutMs >>= fun ready =>
        if ready then send (Frame.getBuffer size) >>= fun _ => g else l) := by
  have hrest : ∀ ready : Bool, MakesAtMost (n + 1)
      (if ready then send (Frame.getBuffer size) >>= fun _ => f else k)
      (if ready then send (Frame.getBuffer size) >>= fun _ => g else l) := by
    rintro (_ | _)
    · exact hnone.mono (Nat.le_succ n)
    · exact ((send_atMost _).bind fun _ => hfetch).mono (by omega)
  exact ((isReady_atMost timeoutMs).bind hrest).mono (by omega)

/-- A fetch is a probe, a frame and a read. -/
theorem fetch_atMost (probeMs size timeoutMs : Nat) :
    MakesAtMost 5 (fetch (σ := Recorded σ) probeMs size timeoutMs)
      (fetch (σ := σ) probeMs size timeoutMs) := by
  refine probed_atMost probeMs size (n := 1) ?_ ((MakesAtMost.throw _).mono (Nat.zero_le 1))
  refine (read_atMost size timeoutMs).bind (n := 0) fun bytes => ?_
  split
  · exact .throw _
  · exact .pure _

/-- To receive is to read, and to fetch if that is silent. -/
theorem receive_atMost (probeMs size timeoutMs : Nat) :
    MakesAtMost 6 (receive (σ := Recorded σ) probeMs size timeoutMs)
      (receive (σ := σ) probeMs size timeoutMs) := by
  refine (read_atMost size timeoutMs).attempt.bind (n := 5) fun first => ?_
  have hfetch := fetch_atMost (σ := σ) probeMs size timeoutMs
  rcases first with cause | bytes
  · dsimp only
    split
    · -- a silent read and an empty one are followed by the same fetch
      exact hfetch
    · exact (MakesAtMost.throw cause).mono (Nat.zero_le 5)
  · dsimp only
    split
    · exact hfetch
    · exact (MakesAtMost.pure _).mono (Nat.zero_le 5)

/-- After the first bytes there is a probe before every read. -/
theorem receiveMore_atMost (probeMs size timeoutMs : Nat) :
    MakesAtMost 10 (receiveMore (σ := Recorded σ) probeMs size timeoutMs)
      (receiveMore (σ := σ) probeMs size timeoutMs) :=
  probed_atMost probeMs size (receive_atMost probeMs size timeoutMs)
    (receive_atMost probeMs size timeoutMs)

end Link

namespace Channel

/-! ### Where the loop begins -/

/-- Nothing is to be skipped in the round, unless the reply is done. -/
def Round.Clear (round : Round σ) : Prop :=
  round.r.scanner.isDone = false → round.r.inbox.tail = none

/-- A loop begins with an open scanner and nothing to skip, if there is no rest of a message. -/
private theorem startRound_clear {c : Channel σ} (htail : c.inbox.tail = none) :
    c.startRound.Clear :=
  Reassembly.tail_absorb (r := ⟨Scanner.new c.config.maxReplyBytes, { c.inbox with pending := [] }⟩)
    htail

/-- What waits is a part of the reply. -/
private theorem startRound_within (c : Channel σ) :
    c.startRound.r.scanner.Within (max 1 c.config.maxReplyBytes + 1) := by
  have hnew : (Scanner.new c.config.maxReplyBytes).Within (max 1 c.config.maxReplyBytes + 1) := by
    refine .inr ?_
    simp only [Scanner.remaining, Scanner.new, Scanner.size, List.size_toArray, List.length_nil]
    omega
  obtain ⟨used, hused⟩ := Reassembly.scanner_absorb_eq_feed
    ⟨Scanner.new c.config.maxReplyBytes, { c.inbox with pending := [] }⟩ c.inbox.pending
  rw [show c.startRound.r.scanner = _ from hused]
  exact Scanner.within_feed hnew used

variable [Transport σ]

/-! ### One pass -/

/-- A pass makes two probes and two fetches at most, with a read after each of those. -/
theorem nextRead_atMost (config : Config) (first : Bool) :
    MakesAtMost 10 (nextRead (σ := Recorded σ) config first) (nextRead (σ := σ) config first) := by
  cases first with
  | true => exact (Link.receive_atMost _ _ _).mono (by omega)
  | false => exact Link.receiveMore_atMost _ _ _

/-! ### The loop without a limit -/

/-- The loop that puts a reply together, from a round on: the passes that it makes, and what it
    comes to. -/
inductive Passes (config : Config) :
    Round σ → Nat → EStateM.Result LinkError (Reassembly × σ) Unit → Prop where
  | done {first : Bool} {r : Reassembly} {link : σ} : r.scanner.isDone = true →
      Passes config ⟨first, r, link⟩ 0 (.ok () (r, link))
  | silent {first : Bool} {r : Reassembly} {link link' : σ} {cause : LinkError} :
      r.scanner.isDone = false → nextRead config first link = .error cause link' →
      (cause.isTimeout && !r.scanner.isEmpty) = true →
      Passes config ⟨first, r, link⟩ 1 (.ok () (r, link'))
  | failed {first : Bool} {r : Reassembly} {link link' : σ} {cause : LinkError} :
      r.scanner.isDone = false → nextRead config first link = .error cause link' →
      (cause.isTimeout && !r.scanner.isEmpty) = false →
      Passes config ⟨first, r, link⟩ 1 (.error cause (r, link'))
  | read {first : Bool} {r : Reassembly} {link link' : σ} {chunk : Chunk Frame.maxRead}
      {passes : Nat} {result : EStateM.Result LinkError (Reassembly × σ) Unit} :
      r.scanner.isDone = false → nextRead config first link = .ok chunk link' →
      Passes config ⟨false, r.absorb chunk, link'⟩ passes result →
      Passes config ⟨first, r, link⟩ (passes + 1) result

/-- What reading a reply comes to when its loop has come to something. -/
def concluded (c : Channel σ) : EStateM.Result LinkError (Reassembly × σ) Unit →
    EStateM.Result (Stop LinkError) (Channel σ) Reply
  | .ok () (r, link) => .ok r.scanner.finish { c with inbox := r.inbox, link }
  | .error cause (r, link) => .error (.failed cause) { c with inbox := r.inbox, link }

/-- An outcome of the loop as one of the loop that may also be left unfinished. -/
def halted : EStateM.Result LinkError (Reassembly × σ) Unit →
    EStateM.Result (Stop LinkError) (Reassembly × σ) Unit
  | .ok u last => .ok u last
  | .error cause last => .error (.failed cause) last

variable {config : Config} {round last : Round σ} {passes passes' : Nat}
  {result result' : EStateM.Result LinkError (Reassembly × σ) Unit}

/-- The loop has one run. -/
theorem Passes.unique (h : Passes config round passes result)
    (h' : Passes config round passes' result') : passes' = passes ∧ result' = result := by
  -- the read of a pass has one outcome, and that tells in which way the loop goes on
  induction h generalizing passes' with
  -- the reply is done, and no other pass begins so
  | done hdone =>
    cases h' with
    | done => exact ⟨rfl, rfl⟩
    | silent hopen | failed hopen | read hopen => exact nomatch hopen.symm.trans hdone
  -- silence after some bytes, which is told from a failure by the bytes that are there
  | silent hopen hread hsilence =>
    cases h' with
    | done hdone => exact nomatch hopen.symm.trans hdone
    | silent _ hread' =>
      obtain ⟨rfl, rfl⟩ := EStateM.Result.error.inj (hread'.symm.trans hread)
      exact ⟨rfl, rfl⟩
    | failed _ hread' hnone =>
      obtain ⟨rfl, rfl⟩ := EStateM.Result.error.inj (hread'.symm.trans hread)
      exact nomatch hnone.symm.trans hsilence
    | read _ hread' => exact nomatch hread'.symm.trans hread
  | failed hopen hread hnone =>
    cases h' with
    | done hdone => exact nomatch hopen.symm.trans hdone
    | silent _ hread' hsilence =>
      obtain ⟨rfl, rfl⟩ := EStateM.Result.error.inj (hread'.symm.trans hread)
      exact nomatch hnone.symm.trans hsilence
    | failed _ hread' =>
      obtain ⟨rfl, rfl⟩ := EStateM.Result.error.inj (hread'.symm.trans hread)
      exact ⟨rfl, rfl⟩
    | read _ hread' => exact nomatch hread'.symm.trans hread
  | read hopen hread _ ih =>
    -- a read that brings bytes goes on to the next pass, for which there is the induction
    cases h' with
    | done hdone => exact nomatch hopen.symm.trans hdone
    | silent _ hread' | failed _ hread' => exact nomatch hread'.symm.trans hread
    | read _ hread' hmore =>
      obtain ⟨rfl, rfl⟩ := EStateM.Result.ok.inj (hread'.symm.trans hread)
      obtain ⟨rfl, rfl⟩ := ih hmore
      exact ⟨rfl, rfl⟩

/-- Each pass makes its calls. -/
private theorem Passes.calls_le {round : Round (Recorded σ)}
    {result : EStateM.Result LinkError (Reassembly × Recorded σ) Unit}
    (h : Passes config round passes result) :
    (finalState result).2.calls.length ≤ round.link.calls.length + 10 * passes := by
  -- one pass makes at most ten calls
  have hpass : ∀ {first : Bool} {link : Recorded σ} {run}, nextRead config first link = run →
      (finalState run).calls.length ≤ link.calls.length + 10 := by
    rintro first link _ rfl
    exact (nextRead_atMost config first).calls_le link
  induction h with
  | done => exact Nat.le_refl _
  | silent _ hread | failed _ hread => exact hpass hread
  | read _ hread _ ih =>
    have hone := hpass hread
    dsimp only [finalState] at hone ih ⊢
    omega

/-! ### The passes are bounded -/

/-- What a loop skips is skipped at its beginning, so that none of its rounds has a tail. -/
theorem Rounds.clear (h : Rounds config round last) (hround : round.Clear) : last.Clear := by
  induction h with
  | refl => exact hround
  | read hopen _ _ ih => exact ih (Reassembly.tail_absorb (hround hopen))

/-- With nothing to skip, the loop ends within as many passes as there are bytes of space, however
    few rounds the one that is run may spend on skipping. -/
private theorem exists_passes (config : Config) (round : Round σ) {space : Nat}
    (hclear : round.Clear)
    (hwithin : round.r.scanner.Within (space + 1)) (rounds : Nat) :
    ∃ passes result, Passes config round passes result ∧ passes ≤ space ∧
      collect config rounds round.first round.r round.link = halted result := by
  -- on the space, of which each read that succeeds leaves less
  induction space generalizing round with
  -- there is no space for an open scanner
  | zero =>
    rcases hwithin with hdone | ⟨hpos, hlt⟩
    · exact ⟨0, _, .done hdone, Nat.le_refl 0, collect_done hdone ..⟩
    · omega
  | succ space ih =>
    obtain ⟨first, r, link⟩ := round
    by_cases hdone : r.scanner.isDone = true
    · exact ⟨0, _, .done hdone, Nat.zero_le _, collect_done hdone ..⟩
    · have hopen : r.scanner.isDone = false := by simpa using hdone
      have htail := hclear hopen
      have hspace := (hwithin.resolve_left hdone).2
      dsimp only
      rw [collect_open hopen htail]
      cases hread : nextRead config first link with
      | error cause link' =>
        dsimp only
        split
        · next hsilence =>
          exact ⟨1, _, .silent hopen hread hsilence, Nat.succ_pos space, rfl⟩
        · next hnone =>
          exact ⟨1, _, .failed hopen hread (by simpa using hnone), Nat.succ_pos space, rfl⟩
      | ok chunk link' =>
        -- the read takes a pass, and the scanner takes a byte of what it brings
        have hless : (r.absorb chunk).scanner.Within (space + 1) := by
          rw [Reassembly.scanner_absorb htail]
          exact (Scanner.feed_advances hopen chunk.2.1).within.mono (Nat.le_of_lt_succ hspace)
        obtain ⟨passes, result, hpasses, hle, hcollect⟩ :=
          ih ⟨false, r.absorb chunk, link'⟩ (Reassembly.tail_absorb htail) hless
        exact ⟨passes + 1, result, .read hopen hread hpasses, Nat.succ_le_succ hle, hcollect⟩

/-- Reading a reply is bounded by the size that a reply may have. -/
structure Bounded (c : Channel σ) : Prop where
  /-- The loop comes to an end. -/
  ends : ∃ passes result, Passes c.config c.startRound passes result
  /-- Its passes are no more than the bytes of a reply, and what it comes to is the outcome. -/
  passes : ∀ {passes result}, Passes c.config c.startRound passes result →
    passes ≤ max 1 c.config.maxReplyBytes ∧ readReply c = c.concluded result
  /-- Wherever the loop reads, the scanner gets on with the reply if the read succeeds. -/
  advances : ∀ {round}, Rounds c.config c.startRound round → round.r.scanner.isDone = false →
    round.r.inbox.tail = none ∧
    ∀ {chunk link}, nextRead c.config round.first round.link = .ok chunk link →
      round.r.scanner.Advances chunk (round.r.absorb chunk).scanner
  /-- There are no more than ten calls to a pass. -/
  calls : ∀ before, (finalState (readReply (c.recorded before))).link.calls.length ≤
    before.length + 10 * max 1 c.config.maxReplyBytes

/-- The loop of a reply ends within the bytes that its limit has space for, and one pass if there is
    none. -/
private theorem readReply_passes {c : Channel σ} (htail : c.inbox.tail = none) :
    ∃ passes result, Passes c.config c.startRound passes result ∧
      passes ≤ max 1 c.config.maxReplyBytes ∧ readReply c = c.concluded result := by
  obtain ⟨passes, result, hpasses, hle, hcollect⟩ :=
    exists_passes c.config c.startRound (startRound_clear htail) (startRound_within c)
      (Transport.horizon c.link)
  refine ⟨passes, result, hpasses, hle, ?_⟩
  dsimp only [startRound] at hcollect
  rw [readReply_eq, hcollect]
  cases result <;> rfl

/-- With nothing to skip, reading is bounded on any transport. -/
private theorem bounded_of_tail {c : Channel σ} (htail : c.inbox.tail = none) : c.Bounded where
  ends := by
    obtain ⟨passes, result, hpasses, -⟩ := readReply_passes htail
    exact ⟨passes, result, hpasses⟩
  passes := by
    -- the passes of a run are determined, so these are the ones that there are
    intro passes result hpasses
    obtain ⟨passes', result', hpasses', hle, hread⟩ := readReply_passes htail
    obtain ⟨rfl, rfl⟩ := hpasses'.unique hpasses
    exact ⟨hle, hread⟩
  advances := by
    intro round hrounds hopen
    have hnone := hrounds.clear (startRound_clear htail) hopen
    refine ⟨hnone, fun {chunk link} _ => ?_⟩
    rw [Reassembly.scanner_absorb hnone]
    exact Scanner.feed_advances hopen chunk.2.1
  calls := by
    intro before
    obtain ⟨passes, result, hpasses, hle, hread⟩ :=
      readReply_passes (c := c.recorded before) htail
    have hcalls := hpasses.calls_le
    have hlink : (finalState (readReply (c.recorded before))).link = (finalState result).2 := by
      rw [hread]
      cases result <;> rfl
    -- the loop on the recorded transport has passes of its own, and they are as few
    have hten := Nat.mul_le_mul_left 10 hle
    rw [hlink]
    exact Nat.le_trans hcalls (Nat.add_le_add_left hten _)

/-- A flush and a new connection leave nothing behind, whether they succeed or fail. -/
private theorem inbox_flush (c : Channel σ) : (finalState (flush c)).inbox = {} := by
  obtain ⟨link, hflush⟩ := finalState_flush c
  rw [hflush]

/-- Connecting anew forgets what was received. -/
private theorem inbox_reconnect (c : Channel σ) : (finalState (reconnect c)).inbox = {} := by
  simp only [reconnect, bind_run, modify_run, onLink]
  cases Transport.reconnect c.link <;> rfl

/-- **Reading a reply ends on every transport,** with nothing to skip as after a flush or on a new
    connection, even if bytes come without end: the loop has a run, the run has no more passes than
    a reply may have bytes, and each read that succeeds gives the scanner a byte at least, which
    leaves less space or completes the reply. A probe makes at most two reads for its answer. -/
theorem readReply_bounded (c : Channel σ) (htail : c.inbox.tail = none) :
    c.Bounded ∧
    (∀ timeoutMs, Makes Recorded.mk (Link.isReady (σ := Recorded σ) timeoutMs)
      (Link.isReady (σ := σ) timeoutMs) fun calls _ =>
        ∃ outcome reads, calls = .write Frame.readReady.encode outcome :: reads ∧
          (∀ call ∈ reads, call.isRead = true) ∧ reads.length ≤ 2) ∧
    ∀ other : Channel σ, (finalState (flush other)).inbox = {} ∧
      (finalState (reconnect other)).inbox = {} :=
  ⟨bounded_of_tail htail, Link.isReady_reads,
    fun other => ⟨inbox_flush other, inbox_reconnect other⟩⟩

end Channel

/-! ### Bytes without end -/

/-- A transport on which bytes come one by one and never end. -/
structure Tap where

instance : Transport Tap where
  write data := pure data.length
  read
    | 0, _ => pure ⟨[], Nat.le_refl 0⟩
    | size + 1, _ => pure ⟨[0x41], Nat.le_add_left 1 size⟩
  reconnect := pure ()
  describe _ := "tap"
  now _ := 0
  horizon _ := 0

namespace Channel

/-- The tap gives a byte to every read, and says that it is ready to every probe. -/
private theorem nextRead_tap (config : Config) (first : Bool) (tap : Tap) :
    nextRead config first tap = .ok ⟨[0x41], List.cons_ne_nil _ _, by decide⟩ tap := by
  -- whatever is asked for, one byte is given
  have hread : ∀ (size timeoutMs : Nat), (Transport.read (size + 1) timeoutMs : Link Tap _) tap =
      .ok ⟨[0x41], Nat.le_add_left 1 size⟩ tap := by
    intro size timeoutMs
    rfl
  have hready : Link.isReady config.timeoutMs tap = .ok true tap := by
    simp only [Link.isReady, Link.gather, bind_run, attempt_run, hread, List.length_nil,
      Nat.sub_zero]
    rfl
  cases first with
  | true => rfl
  | false =>
    rw [nextRead, if_neg Bool.false_ne_true, Link.receiveMore, bind_run, hready]
    rfl

/-- From a transport that never ends its bytes a reply of three of them is read, and then no
    more. -/
theorem readReply_bounded_tap :
    let c : Channel Tap := { link := {}, config := { maxReplyBytes := 3 } }
    c.Bounded ∧ (∃ result, Passes c.config c.startRound 3 result) ∧
      ∃ c', readReply c = .ok ⟨[0x41, 0x41, Control.ack], .truncated⟩ c' := by
  intro c
  obtain ⟨hbounded, -⟩ := readReply_bounded c rfl
  have hpasses : Passes c.config c.startRound 3 _ :=
    .read rfl (nextRead_tap ..) (.read rfl (nextRead_tap ..) (.read rfl (nextRead_tap ..)
      (.done rfl)))
  exact ⟨hbounded, ⟨_, hpasses⟩, _, (hbounded.passes hpasses).2⟩

end Channel

end PmacPoll
