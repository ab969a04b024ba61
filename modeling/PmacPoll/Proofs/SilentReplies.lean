import PmacPoll.Proofs.CallFailures

/-!
# Replies that silence ends

The reads of a reply, one after another, as a relation, `Rounds`: it leads from where the loop
begins to the read that is the last, and `Halts` says how that one ends the loop. So an outcome of
the loop is explained by the read that it comes from, `Channel.collect_halts`.

An exchange that times out has not given a byte to its scanner, and a reply that is incomplete was
ended by a read that stayed silent, `Channel.writeRead_explained`.
-/

namespace PmacPoll

open Running Reply

variable {σ α : Type}

/-! ### A scanner from its beginning -/

/-- Either the scanner was given nothing, or it holds something. -/
def Reply.Scanner.NewOrFilled (maxLength : Nat) (s : Scanner) : Prop :=
  s = Scanner.new maxLength ∨ s.isEmpty = false

/-- A scanner with something in it has data. -/
private theorem Reply.Scanner.data_ne_nil {s : Scanner} (h : s.isEmpty = false) : s.data ≠ [] := by
  rw [Scanner.isEmpty, Array.isEmpty_eq_false_iff] at h
  exact fun hdata => h (Array.toList_eq_nil_iff.mp hdata)

namespace Reassembly

/-- What comes in is given to the scanner, or is not. -/
private theorem newOrFilled_absorb {maxLength : Nat} {r : Reassembly}
    (h : r.scanner.NewOrFilled maxLength) (input : Bytes) :
    (r.absorb input).scanner.NewOrFilled maxLength := by
  obtain ⟨used, hused⟩ := scanner_absorb_eq_feed r input
  rw [hused]
  rcases h with hnew | hfull
  · rw [hnew]
    cases used with
    | nil => exact .inl (by rw [Scanner.feed_nil])
    | cons byte rest =>
      exact .inr (Scanner.isEmpty_feed_of_ne (Scanner.isDone_new _) (List.cons_ne_nil _ _))
  · exact .inr (Scanner.isEmpty_feed hfull used)

end Reassembly

namespace Channel

/-! ### The reads of a reply -/

/-- Where the loop that puts a reply together stands before a read. -/
structure Round (σ : Type) where
  /-- Is the read the first one? -/
  first : Bool
  r : Reassembly
  link : σ

/-- The round in which the reading of a reply begins. -/
def startRound (c : Channel σ) : Round σ :=
  ⟨true, .start c.config.maxReplyBytes c.inbox, c.link⟩

/-- The scanner of a reply has nothing in it, or something that was held back for it. -/
private theorem startRound_newOrFilled (c : Channel σ) :
    c.startRound.r.scanner.NewOrFilled c.config.maxReplyBytes :=
  Reassembly.newOrFilled_absorb (.inl rfl) _

variable [Transport σ]

/-- The reads that bring bytes, one after another, from one round to a later one. -/
inductive Rounds (config : Config) : Round σ → Round σ → Prop where
  | refl (round : Round σ) : Rounds config round round
  | read {first : Bool} {r : Reassembly} {link link' : σ} {chunk : Chunk Frame.maxRead}
      {last : Round σ} : r.scanner.isDone = false →
      nextRead config first link = .ok chunk link' →
      Rounds config ⟨false, r.absorb chunk, link'⟩ last → Rounds config ⟨first, r, link⟩ last

/-- How the loop ends in a round: without a read, because the reply is done; with a read that fails,
    which is a reply if it fails by silence and the scanner holds something; or because too many
    bytes were skipped. -/
inductive Halts (config : Config) (round : Round σ) :
    EStateM.Result (Stop LinkError) (Reassembly × σ) Unit → Prop where
  | done : round.r.scanner.isDone = true → Halts config round (.ok () (round.r, round.link))
  | silent {cause : LinkError} {link : σ} : round.r.scanner.isDone = false →
      nextRead config round.first round.link = .error cause link → cause.isTimeout = true →
      round.r.scanner.isEmpty = false → Halts config round (.ok () (round.r, link))
  | failed {cause : LinkError} {link : σ} : round.r.scanner.isDone = false →
      nextRead config round.first round.link = .error cause link →
      (cause.isTimeout = true → round.r.scanner.isEmpty = true) →
      Halts config round (.error (.failed cause) (round.r, link))
  | unfinished : Halts config round (.error .unfinished (round.r, round.link))

/-- The loop makes reads that bring bytes, and then it ends. -/
theorem collect_halts (config : Config) (rounds : Nat) (first : Bool) (r : Reassembly) (link : σ) :
    ∃ last, Rounds config ⟨first, r, link⟩ last ∧
      Halts config last (collect config rounds first r link) := by
  fun_induction collect config rounds first r link with
  | case1 _ _ _ _ hdone => exact ⟨_, .refl _, .done hdone⟩
  | case2 _ first r link hopen _ _ cause link' hnext hsilence =>
    rw [Bool.and_eq_true, Bool.not_eq_true'] at hsilence
    exact ⟨_, .refl _, .silent (by simpa using hopen) hnext hsilence.1 hsilence.2⟩
  | case3 _ first r link hopen _ _ cause link' hnext hnone =>
    refine ⟨_, .refl _, .failed (by simpa using hopen) hnext fun hcause => ?_⟩
    rw [hcause, Bool.true_and, Bool.not_eq_true, Bool.not_eq_false'] at hnone
    exact hnone
  -- whether or not the read costs a round, the loop goes on from what it brought
  | case4 _ _ _ _ hopen _ _ _ _ hnext _ ih | case6 _ _ _ hopen _ _ _ _ hnext _ _ ih =>
    obtain ⟨last, hrounds, hhalts⟩ := ih
    exact ⟨last, .read (by simpa using hopen) hnext hrounds, hhalts⟩
  | case5 first r link hopen _ _ chunk link' hnext =>
    exact ⟨⟨false, r.absorb chunk, link'⟩, .read (by simpa using hopen) hnext (.refl _),
      .unfinished⟩

/-- Whatever comes in, a scanner that was given something holds something. -/
private theorem Rounds.newOrFilled {config : Config} {maxLength : Nat} {round last : Round σ}
    (h : Rounds config round last) (hround : round.r.scanner.NewOrFilled maxLength) :
    last.r.scanner.NewOrFilled maxLength := by
  induction h with
  | refl => exact hround
  | read _ _ _ ih => exact ih (Reassembly.newOrFilled_absorb hround _)

/-! ### What an outcome comes from -/

/-- The read of a round ends in a timeout, which is that of its last call or comes from a read
    without bytes. -/
def EndsSilent (config : Config) (round : Round (Recorded σ)) (link : Recorded σ) : Prop :=
  ∃ cause calls, nextRead config round.first round.link = .error cause link ∧
    cause.isTimeout = true ∧ link.calls = round.link.calls ++ calls ∧
    Blames Frame.maxRead config.timeoutMs calls cause

/-- Where the outcome of reading a reply comes from. After a timeout the scanner is as it was made.
    A reply has bytes, and it is incomplete if its scanner is not done; then the last read stayed
    silent, with something in the scanner. -/
structure Explained (c : Channel (Recorded σ)) (replyOf : α → Reply)
    (result : EStateM.Result (Stop LinkError) (Channel (Recorded σ)) α) : Prop where
  timedOut : ∀ cause c', result = .error (.failed cause) c' → cause.isTimeout = true →
    ∃ last link, Rounds c.config c.startRound last ∧
      nextRead c.config last.first last.link = .error cause link ∧
      c' = { c with inbox := last.r.inbox, link } ∧
      last.r.scanner = Scanner.new c.config.maxReplyBytes
  replied : ∀ a c', result = .ok a c' →
    ∃ last link, Rounds c.config c.startRound last ∧ c' = { c with inbox := last.r.inbox, link } ∧
      replyOf a = last.r.scanner.finish ∧ (replyOf a).data ≠ [] ∧
      ((replyOf a).termination = .incomplete ↔ last.r.scanner.isDone = false) ∧
      (last.r.scanner.isDone = true → link = last.link) ∧
      (last.r.scanner.isDone = false →
        last.r.scanner.isEmpty = false ∧ EndsSilent c.config last link)

/-- A read that fails has a call to blame. -/
private theorem nextRead_blames {config : Config} {first : Bool} {link link' : Recorded σ}
    {cause : LinkError} (h : nextRead config first link = .error cause link') :
    ∃ calls, link'.calls = link.calls ++ calls ∧
      Blames Frame.maxRead config.timeoutMs calls cause := by
  obtain ⟨calls, hrun, hends⟩ := nextRead_ends config first link.link link.calls
  have hread : nextRead config first link = _ := hrun
  rw [hread] at h
  cases hplain : nextRead config first link.link with
  | ok chunk s => rw [hplain] at h; exact nomatch h
  | error other s =>
    rw [hplain] at h hends
    obtain ⟨rfl, rfl⟩ := EStateM.Result.error.inj h
    exact ⟨calls, rfl, hends.blames other rfl⟩

/-- A reply is incomplete just if its scanner is not done. -/
private theorem termination_finish (s : Scanner) :
    s.finish.termination = .incomplete ↔ s.isDone = false := by
  rw [← Scanner.isComplete_finish, Reply.isComplete, bne_eq_false_iff_eq]

/-- What comes of reading a reply is explained by its last read. -/
private theorem readReply_explained (c : Channel (Recorded σ)) : Explained c id (readReply c) := by
  obtain ⟨last, hrounds, hhalts⟩ := collect_halts c.config (Transport.horizon c.link) true
    (.start c.config.maxReplyBytes c.inbox) c.link
  have hscanner := hrounds.newOrFilled c.startRound_newOrFilled
  rw [readReply_eq]
  generalize collect c.config _ true _ c.link = result at hhalts ⊢
  -- how the last read ended the loop
  cases hhalts with
  | done hdone =>
    refine ⟨nofun, fun reply c' h => ?_⟩
    obtain ⟨rfl, rfl⟩ := EStateM.Result.ok.inj h
    -- a scanner that is done was given something
    have hfull : last.r.scanner.isEmpty = false := hscanner.resolve_left fun hnew => by
      rw [hnew, Scanner.isDone_new] at hdone
      exact nomatch hdone
    refine ⟨last, last.link, hrounds, rfl, rfl, Scanner.data_ne_nil hfull, termination_finish _,
      fun _ => rfl, fun hopen => ?_⟩
    exact nomatch hopen.symm.trans hdone
  | silent hopen hread hcause hfull =>
    refine ⟨nofun, fun reply c' h => ?_⟩
    obtain ⟨rfl, rfl⟩ := EStateM.Result.ok.inj h
    obtain ⟨calls, hcalls, hblames⟩ := nextRead_blames hread
    refine ⟨last, _, hrounds, rfl, rfl, Scanner.data_ne_nil hfull, termination_finish _,
      fun hdone => ?_, fun _ => ⟨hfull, _, calls, hread, hcause, hcalls, hblames⟩⟩
    exact nomatch hopen.symm.trans hdone
  | failed hopen hread hempty =>
    refine ⟨fun cause c' h hcause => ?_, nofun⟩
    obtain ⟨hstop, rfl⟩ := EStateM.Result.error.inj h
    obtain rfl := Stop.failed.inj hstop
    refine ⟨last, _, hrounds, hread, rfl, hscanner.resolve_right fun hfull => ?_⟩
    exact nomatch hfull.symm.trans (hempty hcause)
  | unfinished =>
    refine ⟨fun cause c' h => ?_, nofun⟩
    exact nomatch (EStateM.Result.error.inj h).1

/-- What comes of an exchange whose command went out is what comes of reading its reply. -/
private theorem writeRead_explained_of_begin {command : Bytes} {c sent : Channel (Recorded σ)}
    (h : beginExchange command c = .ok () sent) :
    Explained sent Exchange.reply (writeRead command c) := by
  have hreply := readReply_explained sent
  rw [writeRead_eq_begin, bind_run, h]
  dsimp only
  rw [bind_run]
  -- the exchange has the reply that was read, or the failure
  cases hread : readReply sent with
  | ok reply c' =>
    rw [hread] at hreply
    refine ⟨nofun, fun x c'' hx => ?_⟩
    obtain ⟨rfl, rfl⟩ := EStateM.Result.ok.inj hx
    exact hreply.replied reply c' rfl
  | error stop c' =>
    rw [hread] at hreply
    refine ⟨fun cause c'' hx => ?_, nofun⟩
    obtain ⟨rfl, rfl⟩ := EStateM.Result.error.inj hx
    exact hreply.timedOut cause c' rfl

/-- **Failures are final, and timeouts are silence.** Whatever a transport does, a call that fails
    and not by silence is the last one of the operation, which fails with its cause, and no
    operation fails so without such a call. If an exchange times out, then before it made a scanner
    or with nothing in it; a reply has bytes, and it is incomplete exactly if its scanner is not
    done, which takes a read that stayed silent after something had come. -/
theorem failures_final (command : Bytes) (probeMs size timeoutMs : Nat) :
    Makes recorded (writeRead (σ := Recorded σ) command) (writeRead (σ := σ) command)
        FailsAtFault ∧
      Makes recorded (readReply (σ := Recorded σ)) (readReply (σ := σ)) FailsAtFault ∧
      Makes recorded (flush (σ := Recorded σ)) (flush (σ := σ)) FailsAtFault ∧
      Makes Recorded.mk (Link.receive (σ := Recorded σ) probeMs size timeoutMs)
        (Link.receive (σ := σ) probeMs size timeoutMs)
        (fun calls r => FaultsFinal calls (r = .error ·)) ∧
      Makes Recorded.mk (Link.isReady (σ := Recorded σ) probeMs) (Link.isReady (σ := σ) probeMs)
        (fun calls r => FaultsFinal calls (r = .error ·)) ∧
      (∀ c : Channel (Recorded σ), Explained c id (readReply c)) ∧
      ∀ c : Channel (Recorded σ),
        match beginExchange command c with
        | .error stop c' => writeRead command c = .error stop c'
        | .ok () sent => Explained sent Exchange.reply (writeRead command c) := by
  have hready : Makes Recorded.mk (Link.isReady (σ := Recorded σ) probeMs)
      (Link.isReady (σ := σ) probeMs) (Ends size timeoutMs) := Link.isReady_ends probeMs
  refine ⟨writeRead_fails command, readReply_fails, flush_fails,
    (Link.receive_ends probeMs size timeoutMs).mono fun _ _ h => h.faults,
    hready.mono fun _ _ h => h.faults, readReply_explained, fun c => ?_⟩
  -- an exchange whose command did not go out ends there
  cases hbegin : beginExchange command c with
  | ok u sent => exact writeRead_explained_of_begin hbegin
  | error stop c' =>
    dsimp only
    rw [writeRead_eq_begin, bind_run, hbegin]

end Channel

end PmacPoll
