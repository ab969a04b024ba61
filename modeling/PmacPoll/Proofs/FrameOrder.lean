import PmacPoll.Proofs.ReplyReading
import PmacPoll.Proofs.RecordedCalls

/-!
# The order of the frames of an exchange

Whatever a transport does, an exchange hands it a flush if one is wanted, then the command once, and
then probes, of which each may be followed by a fetch if its answer says that data are waiting,
`Channel.writeRead_commanded`. After a write that failed it makes no call any more.

`Probing` is this for the reads of a reply, and `Commanded` for the whole exchange.
-/

namespace PmacPoll

open Running

variable {ε ε' σ α β : Type}

/-! ### Failed writes -/

/-- After a write that failed there is no call. -/
def Unresumed (calls : List Call) : Prop :=
  calls.Pairwise fun call _ => call.isFailedWrite = false

/-- A write that fails is the last call, and then the operation fails too. -/
structure StopsAtFailure (calls : List Call) (r : Except ε α) : Prop where
  last : Unresumed calls
  fails : ∀ a, r = .ok a → ∀ call ∈ calls, call.isFailedWrite = false

namespace StopsAtFailure

variable {calls later : List Call} {r : Except ε α} {r' : Except ε' β} {a : α}

/-- Where no write failed, nothing had to stop. -/
private theorem of_none (h : ∀ call ∈ calls, call.isFailedWrite = false) : StopsAtFailure calls r :=
  ⟨List.Pairwise.imp_of_mem (fun ha _ _ => h _ ha) (List.pairwise_of_forall fun _ _ => trivial),
    fun _ _ => h⟩

/-- One call stops at its failure. -/
theorem single {call : Call} (h : ∀ a, r = .ok a → call.isFailedWrite = false) :
    StopsAtFailure [call] r := by
  refine ⟨List.pairwise_singleton _ _, fun a ha other hother => ?_⟩
  rw [List.mem_singleton.mp hother]
  exact h a ha

/-- After calls that all went well, the later ones may be those of an operation that stopped. -/
private theorem unresumed_append (h : StopsAtFailure calls (.ok a : Except ε α))
    (h' : Unresumed later) : Unresumed (calls ++ later) :=
  List.pairwise_append.mpr ⟨h.last, h', fun call hcall _ _ => h.fails a rfl call hcall⟩

/-- An operation goes on only after one that went well. -/
theorem append (h : StopsAtFailure calls (.ok a : Except ε α)) (h' : StopsAtFailure later r') :
    StopsAtFailure (calls ++ later) r' := by
  refine ⟨h.unresumed_append h'.last, fun b hb call hcall => ?_⟩
  obtain hcall | hcall := List.mem_append.mp hcall
  · exact h.fails a rfl call hcall
  · exact h'.fails b hb call hcall

/-- A failed operation is not asked whether its writes went well. -/
private theorem of_error (h : StopsAtFailure calls r) (e : ε') :
    StopsAtFailure calls (.error e : Except ε' β) :=
  ⟨h.last, nofun⟩

end StopsAtFailure

/-- A read is no write. -/
private theorem Call.isFailedWrite_of_isRead {call : Call} (h : call.isRead = true) :
    call.isFailedWrite = false := by
  cases call with
  | read => rfl
  | write | reconnect => exact nomatch h

/-! ### Probes and fetches -/

/-- Probes, each of which may be followed by a fetch if exactly two bytes came in answer and the
    first is not zero, with reads between them. -/
inductive Probes : List Call → Prop where
  | nil : Probes []
  | read {calls} (size timeoutMs : Nat) (outcome : Except LinkError Bytes) :
      Probes calls → Probes (.read size timeoutMs outcome :: calls)
  | probe {calls} (outcome : Except LinkError Nat) :
      Probes calls → Probes (.write Frame.readReady.encode outcome :: calls)
  | fetch {answer calls} (count : Nat) (first second : UInt8) (outcome : Except LinkError Nat) :
      (∀ call ∈ answer, call.isRead = true) → received answer = [first, second] → first ≠ 0 →
      Probes calls →
      Probes (.write Frame.readReady.encode (.ok count) ::
        (answer ++ .write (Frame.getBuffer Frame.maxRead).encode outcome :: calls))

namespace Probes

variable {calls later : List Call}

/-- Probes may follow on probes. -/
theorem append (h : Probes calls) (h' : Probes later) : Probes (calls ++ later) := by
  induction h with
  | nil => exact h'
  | read size timeoutMs outcome _ ih => exact .read size timeoutMs outcome ih
  | probe outcome _ ih => exact .probe outcome ih
  | fetch count first second outcome hreads hanswer hready _ ih =>
    rw [List.cons_append, List.append_assoc, List.cons_append]
    exact .fetch count first second outcome hreads hanswer hready ih

/-- Reads are allowed anywhere. -/
private theorem of_reads (h : ∀ call ∈ calls, call.isRead = true) : Probes calls := by
  induction calls with
  | nil => exact .nil
  | cons call calls ih =>
    obtain ⟨hcall, hcalls⟩ := List.forall_mem_cons.mp h
    cases call with
    | read size timeoutMs outcome => exact .read size timeoutMs outcome (ih hcalls)
    | write | reconnect => exact nomatch hcall

/-- What probes write is one of two frames. -/
private theorem mem_written (h : Probes calls) {bytes : Bytes} (hmem : bytes ∈ written calls) :
    bytes = Frame.readReady.encode ∨ bytes = (Frame.getBuffer Frame.maxRead).encode := by
  induction h with
  | nil => exact nomatch hmem
  | read _ _ _ _ ih => exact ih hmem
  | probe _ _ ih =>
    obtain hmem | hmem := List.mem_cons.mp hmem
    · exact Or.inl hmem
    · exact ih hmem
  -- a fetch writes the probe and, after its reads, the call for the data
  | @fetch answer calls _ _ _ outcome hreads _ _ _ ih =>
    rw [written_write, written_append, written_of_reads hreads, written_write] at hmem
    obtain hmem | hmem := List.mem_cons.mp hmem
    · exact Or.inl hmem
    · obtain hmem | hmem := List.mem_cons.mp hmem
      · exact Or.inr hmem
      · exact ih hmem

end Probes

/-- The calls of an operation that reads a reply. -/
structure Probing (calls : List Call) (r : Except ε α) : Prop where
  probes : Probes calls
  stops : StopsAtFailure calls r

namespace Probing

variable {calls later : List Call} {r : Except ε α} {r' : Except ε' β} {a : α}

/-- To do nothing is in order. -/
theorem nil : Probing [] r :=
  ⟨.nil, .of_none nofun⟩

/-- Reads are in order, and none of them is a write. -/
private theorem of_reads (h : ∀ call ∈ calls, call.isRead = true) : Probing calls r :=
  ⟨.of_reads h, .of_none fun call hcall => Call.isFailedWrite_of_isRead (h call hcall)⟩

/-- What is in order one after another is in order. -/
theorem append (h : Probing calls (.ok a : Except ε α)) (h' : Probing later r') :
    Probing (calls ++ later) r' :=
  ⟨h.probes.append h'.probes, h.stops.append h'.stops⟩

/-- A failure instead of a value does not put calls out of order. -/
private theorem of_error (h : Probing calls r) (e : ε') : Probing calls (.error e : Except ε' β) :=
  ⟨h.probes, h.stops.of_error e⟩

end Probing

/-! ### Calls on the link -/

namespace Link

variable [Transport σ]

/-- A read is on record as what it gave. -/
theorem read_makes (size timeoutMs : Nat) :
    Makes Recorded.mk (Transport.read size timeoutMs : Link (Recorded σ) _)
      (Transport.read size timeoutMs : Link σ _) fun calls r =>
      calls = [.read size timeoutMs (r.map Subtype.val)] :=
  .record _ _

/-- A frame is sent with one write, and fails as that write does. -/
theorem send_calls (frame : Frame) :
    Makes Recorded.mk (send (σ := Recorded σ) frame) (send (σ := σ) frame) fun calls r =>
      ∃ outcome, calls = [.write frame.encode outcome] ∧ r = outcome.map fun _ => () := by
  have hwrite : Makes Recorded.mk (Transport.write frame.encode : Link (Recorded σ) Nat)
      (Transport.write frame.encode : Link σ Nat) fun calls r =>
      calls = [.write frame.encode r] := .record _ _
  refine hwrite.bind_pure (fun _ => ()) ?_ ?_
  · rintro _ count rfl
    exact ⟨.ok count, rfl, rfl⟩
  · rintro _ cause rfl
    exact ⟨.error cause, rfl, rfl⟩

/-- A frame is on record as whether it went out, and that is how it ends. -/
theorem send_makes (frame : Frame) :
    Makes Recorded.mk (send (σ := Recorded σ) frame) (send (σ := σ) frame) fun calls r =>
      ∃ outcome, calls = [.write frame.encode outcome] ∧
        (r = .ok () → ∃ count, outcome = .ok count) := by
  refine (send_calls frame).mono ?_
  rintro calls r ⟨outcome, hcalls, rfl⟩
  refine ⟨outcome, hcalls, fun hsent => ?_⟩
  cases outcome with
  | ok count => exact ⟨count, rfl⟩
  | error cause => exact nomatch hsent

/-- A read that goes on as far as it is wanted is only reads, and gives what they bring. -/
theorem gather_makes (timeoutMs wanted : Nat) :
    Makes Recorded.mk (gather (σ := Recorded σ) timeoutMs wanted)
      (gather (σ := σ) timeoutMs wanted) fun calls r =>
      (∀ call ∈ calls, call.isRead = true) ∧ ∀ bytes, r = .ok bytes → received calls = bytes := by
  -- on the number of bytes that are wanted, of which every read but the last brings some
  induction wanted using Nat.strongRecOn with
  | ind wanted ih =>
    cases wanted with
    | zero =>
      rw [gather, gather]
      exact .pure [] ⟨List.forall_mem_nil _, fun bytes h => Except.ok.inj h⟩
    | succ wanted =>
      rw [gather, gather]
      -- what the later reads bring comes after what this one brings
      refine (read_makes (wanted + 1) timeoutMs).attempt.bind (Q := fun first later r =>
        (∀ call ∈ later, call.isRead = true) ∧ ∀ bytes, r = .ok bytes →
          received (.read (wanted + 1) timeoutMs (first.map Subtype.val) :: later) = bytes)
        ?_ ?_ ?_
      · -- nothing came, or an empty read, or some bytes
        rintro (cause | ⟨_ | ⟨byte, more⟩, hsize⟩)
        · dsimp only
          split
          · exact .pure [] ⟨List.forall_mem_nil _, fun bytes h => Except.ok.inj h⟩
          · exact .throw cause ⟨List.forall_mem_nil _, by simp⟩
        · exact .pure [] ⟨List.forall_mem_nil _, fun bytes h => Except.ok.inj h⟩
        · refine (ih _ (by omega)).bind_pure (byte :: more ++ ·) ?_ ?_
          · rintro calls later ⟨hreads, hlater⟩
            refine ⟨hreads, fun bytes h => ?_⟩
            rw [← Except.ok.inj h, ← hlater later rfl]
            rfl
          · rintro calls e ⟨hreads, -⟩
            exact ⟨hreads, by simp⟩
      · rintro _ first later r ⟨r', hr', rfl⟩ ⟨hreads, hbytes⟩
        obtain rfl := Except.ok.inj hr'
        exact ⟨List.forall_mem_cons.mpr ⟨rfl, hreads⟩, hbytes⟩
      · rintro calls e ⟨r', hr', -⟩
        cases hr'

/-- The calls of a probe, and what its answer is if data are waiting. -/
structure Probe (outcome : Except LinkError Nat) (answer : List Call)
    (r : Except LinkError Bool) : Prop where
  reads : ∀ call ∈ answer, call.isRead = true
  stops : StopsAtFailure (.write Frame.readReady.encode outcome :: answer) r
  ready : r = .ok true → ∃ first second, received answer = [first, second] ∧ first ≠ 0

/-- A probe is in order by itself. -/
private theorem Probe.probing {outcome : Except LinkError Nat} {answer : List Call}
    {r : Except LinkError Bool} (h : Probe outcome answer r) :
    Probing (.write Frame.readReady.encode outcome :: answer) r :=
  ⟨.probe outcome (.of_reads h.reads), h.stops⟩

/-- An answer that says that data are waiting has two bytes, of which the first is not zero. -/
private theorem eq_two_of_saysReady {answer : Bytes} (h : saysReady answer = true) :
    ∃ first second, answer = [first, second] ∧ first ≠ 0 := by
  match answer with
  | [first, second] => exact ⟨first, second, rfl, by simpa [saysReady] using h⟩
  | [] | [_] | _ :: _ :: _ :: _ => exact nomatch h

/-- A probe writes its frame first; whatever follows is a read of its answer. -/
theorem isReady_makes (timeoutMs : Nat) :
    Makes Recorded.mk (isReady (σ := Recorded σ) timeoutMs) (isReady (σ := σ) timeoutMs)
      fun calls r => ∃ outcome answer,
        calls = .write Frame.readReady.encode outcome :: answer ∧ Probe outcome answer r := by
  refine (send_makes Frame.readReady).bind (fun _ => (gather_makes timeoutMs 2).bind_pure
    (R := fun calls r => (∀ call ∈ calls, call.isRead = true) ∧
      (r = .ok true → ∃ first second, received calls = [first, second] ∧ first ≠ 0))
    saysReady ?_ ?_) ?_ ?_
  · -- the answer is what the reads bring, so it is judged by these two bytes
    rintro calls answer ⟨hreads, hanswer⟩
    rw [hanswer answer rfl]
    exact ⟨hreads, fun h => eq_two_of_saysReady (Except.ok.inj h)⟩
  · rintro calls e ⟨hreads, -⟩
    exact ⟨hreads, nofun⟩
  · rintro _ _ answer r ⟨outcome, rfl, hsent⟩ ⟨hreads, hready⟩
    obtain ⟨count, rfl⟩ := hsent rfl
    exact ⟨_, answer, rfl, hreads, .of_none (List.forall_mem_cons.mpr
      ⟨rfl, fun call hcall => Call.isFailedWrite_of_isRead (hreads call hcall)⟩), hready⟩
  · -- the frame did not go out, and no read follows
    rintro _ e ⟨outcome, rfl, -⟩
    exact ⟨outcome, [], rfl, nofun, .single nofun, nofun⟩

/-- A probe, and then a fetch if it says that data are waiting. -/
private theorem makes_probed {f k : Link (Recorded σ) α} {g l : Link σ α} (timeoutMs : Nat)
    (hfetch : Makes Recorded.mk f g Probing) (hnone : Makes Recorded.mk k l Probing) :
    Makes Recorded.mk
      (isReady timeoutMs >>= fun ready =>
        if ready then send (Frame.getBuffer Frame.maxRead) >>= fun _ => f else k)
      (isReady timeoutMs >>= fun ready =>
        if ready then send (Frame.getBuffer Frame.maxRead) >>= fun _ => g else l)
      Probing := by
  refine (isReady_makes timeoutMs).bind (Q := fun ready later r => if ready = true then
      ∃ outcome calls, later = .write (Frame.getBuffer Frame.maxRead).encode outcome :: calls ∧
        Probes calls ∧ StopsAtFailure later r
    else Probing later r) (fun ready => ?_) ?_ ?_
  · cases ready with
    | false => exact hnone
    -- the request goes out only after an answer that says ready
    | true =>
      simp only [if_true]
      refine (send_makes _).bind (fun _ => hfetch) ?_ ?_
      · rintro _ _ later r ⟨outcome, rfl, hsent⟩ hlater
        obtain ⟨count, rfl⟩ := hsent rfl
        have hstops : StopsAtFailure
            [.write (Frame.getBuffer Frame.maxRead).encode (.ok count)]
            (.ok () : Except LinkError Unit) := .single fun _ _ => rfl
        exact ⟨_, later, rfl, hlater.probes, hstops.append hlater.stops⟩
      · rintro _ e ⟨outcome, rfl, -⟩
        exact ⟨outcome, [], rfl, .nil, .single nofun⟩
  · rintro _ ready later r ⟨outcome, answer, rfl, hprobe⟩ hlater
    cases ready with
    | false => exact hprobe.probing.append hlater
    | true =>
      obtain ⟨outcome', calls, rfl, hcalls, hstops⟩ := hlater
      obtain ⟨first, second, hanswer, hready⟩ := hprobe.ready rfl
      refine ⟨?_, hprobe.stops.append hstops⟩
      -- the answer came, so the probe went out
      cases outcome with
      | error cause => exact nomatch hprobe.stops.fails true rfl _ List.mem_cons_self
      | ok count =>
        exact .fetch count first second outcome' hprobe.reads hanswer hready hcalls
  · rintro _ e ⟨outcome, answer, rfl, hprobe⟩
    exact hprobe.probing.of_error e

/-- A read that probes after a silence. -/
theorem fetch_makes (probeMs timeoutMs : Nat) :
    Makes Recorded.mk (fetch (σ := Recorded σ) probeMs Frame.maxRead timeoutMs)
      (fetch (σ := σ) probeMs Frame.maxRead timeoutMs) Probing := by
  refine makes_probed probeMs ((read_makes Frame.maxRead timeoutMs).bind
    (Q := fun _ later _ => later = []) (fun bytes => ?_) ?_ ?_) (.throw _ .nil)
  · split
    · exact .throw _ rfl
    · exact .pure _ rfl
  · rintro _ bytes _ r rfl rfl
    exact .of_reads (List.forall_mem_singleton.mpr rfl)
  · rintro _ e rfl
    exact .of_reads (List.forall_mem_singleton.mpr rfl)

/-- To receive is to read, and to fetch if that is silent. -/
theorem receive_makes (probeMs timeoutMs : Nat) :
    Makes Recorded.mk (receive (σ := Recorded σ) probeMs Frame.maxRead timeoutMs)
      (receive (σ := σ) probeMs Frame.maxRead timeoutMs) Probing := by
  refine (read_makes Frame.maxRead timeoutMs).attempt.bind (Q := fun _ => Probing)
    (fun first => ?_) ?_ ?_
  · rcases first with cause | bytes
    · dsimp only
      split
      · exact fetch_makes probeMs timeoutMs
      · exact .throw cause .nil
    · -- an empty read is as silent as a timeout
      dsimp only
      split
      · exact fetch_makes probeMs timeoutMs
      · exact .pure _ .nil
  · rintro _ first later r ⟨_, -, rfl⟩ hlater
    have hread : ∀ outcome, Probing [.read Frame.maxRead timeoutMs outcome]
        (.ok () : Except LinkError Unit) :=
      fun _ => .of_reads (List.forall_mem_singleton.mpr rfl)
    exact (hread _).append hlater
  · rintro calls e ⟨r', hr', -⟩
    exact nomatch hr'

/-- After the first bytes every read comes after a probe. -/
theorem receiveMore_makes (probeMs timeoutMs : Nat) :
    Makes Recorded.mk (receiveMore (σ := Recorded σ) probeMs Frame.maxRead timeoutMs)
      (receiveMore (σ := σ) probeMs Frame.maxRead timeoutMs) Probing :=
  makes_probed probeMs (receive_makes probeMs timeoutMs) (receive_makes probeMs timeoutMs)

end Link

namespace Channel

variable [Transport σ]

/-! ### Reading a reply -/

/-- The channel over the same transport with a record. -/
def recorded (c : Channel σ) (calls : List Call) : Channel (Recorded σ) :=
  { c with link := ⟨c.link, calls⟩ }

/-- The next bytes of a reply come by probes, fetches and reads. -/
theorem nextRead_makes (config : Config) (first : Bool) :
    Makes Recorded.mk (nextRead (σ := Recorded σ) config first) (nextRead (σ := σ) config first)
      Probing := by
  cases first with
  | true => exact Link.receive_makes config.timeoutMs config.timeoutMs
  | false => exact Link.receiveMore_makes config.timeoutMs config.timeoutMs

/-- The loop that puts a reply together makes the calls of its reads, one read after the other. What
    `P` says of the calls of a read and of its outcome gives what `R` says of those of the loop. -/
theorem makes_collect {config : Config}
    {P : List Call → Except LinkError (Chunk Frame.maxRead) → Prop}
    {R : List Call → Except (Stop LinkError) Unit → Prop}
    (hread : ∀ first, Makes Recorded.mk (nextRead (σ := Recorded σ) config first)
      (nextRead (σ := σ) config first) P)
    (hdone : R [] (.ok ())) (hunfinished : R [] (.error .unfinished))
    (hsilent : ∀ calls cause, P calls (.error cause) → cause.isTimeout = true → R calls (.ok ()))
    (hfailed : ∀ calls cause, P calls (.error cause) → R calls (.error (.failed cause)))
    (hmore : ∀ calls chunk later r, P calls (.ok chunk) → R later r → R (calls ++ later) r)
    (rounds : Nat) (first : Bool) (r : Reassembly) (link : σ) (before : List Call) :
    ∃ calls, collect config rounds first r (⟨link, before⟩ : Recorded σ) =
        onState (fun s => (s.1, ⟨s.2, before ++ calls⟩)) (collect config rounds first r link) ∧
      R calls (outcome (collect config rounds first r link)) := by
  by_cases hdone' : r.scanner.isDone = true
  · refine ⟨[], ?_, ?_⟩
    · rw [collect_done hdone', collect_done hdone', List.append_nil]
      rfl
    · rw [collect_done hdone']
      exact hdone
  · have hopen : r.scanner.isDone = false := by simpa using hdone'
    obtain ⟨calls, hrun, hcalls⟩ := hread first link before
    rw [collect_step hopen, collect_step hopen, hrun]
    cases hnext : nextRead config first link with
    -- a failure, or a silence that ends the reply
    | error cause link' =>
      rw [hnext] at hcalls
      refine ⟨calls, ?_, ?_⟩
      · simp only [onState]
        split <;> rfl
      · dsimp only
        split
        · next hsilence =>
          rw [Bool.and_eq_true] at hsilence
          exact hsilent calls cause hcalls hsilence.1
        · exact hfailed calls cause hcalls
    | ok chunk link' =>
      rw [hnext] at hcalls
      have hgoesOn : ∀ rounds', (∃ later,
          collect config rounds' false (r.absorb chunk) (⟨link', before ++ calls⟩ : Recorded σ) =
            onState (fun s => (s.1, ⟨s.2, before ++ calls ++ later⟩))
              (collect config rounds' false (r.absorb chunk) link') ∧
          R later (outcome (collect config rounds' false (r.absorb chunk) link'))) →
          ∃ all, collect config rounds' false (r.absorb chunk)
              (⟨link', before ++ calls⟩ : Recorded σ) =
            onState (fun s => (s.1, ⟨s.2, before ++ all⟩))
              (collect config rounds' false (r.absorb chunk) link') ∧
          R all (outcome (collect config rounds' false (r.absorb chunk) link')) := by
        rintro rounds' ⟨later, hlater, hR⟩
        refine ⟨calls ++ later, ?_, hmore calls chunk later _ hcalls hR⟩
        rw [← List.append_assoc]
        exact hlater
      -- bytes for the reply leave less room in it, and bytes that are skipped cost a round
      by_cases htail : r.inbox.tail = none
      · simp only [onState, if_pos htail]
        exact hgoesOn rounds (makes_collect hread hdone hunfinished hsilent hfailed hmore rounds
          false _ link' (before ++ calls))
      · simp only [onState, if_neg htail]
        cases hrounds : rounds with
        | zero =>
          have hends := hmore calls chunk [] _ hcalls hunfinished
          rw [List.append_nil] at hends
          exact ⟨calls, rfl, hends⟩
        | succ rounds' =>
          exact hgoesOn rounds' (makes_collect hread hdone hunfinished hsilent hfailed hmore
            rounds' false _ link' (before ++ calls))
termination_by (rounds, r.scanner.room)
decreasing_by
  · exact Prod.Lex.right _ (Reassembly.room_absorb_lt hopen htail chunk.2.1)
  · exact Prod.Lex.left _ _ (by omega)

/-- Reading a reply makes the calls of the loop. -/
theorem makes_readReply {R : List Call → Except (Stop LinkError) Unit → Prop}
    {S : List Call → Except (Stop LinkError) Reply → Prop}
    (hcollect : ∀ config rounds first r (link : σ) before, ∃ calls,
      collect config rounds first r (⟨link, before⟩ : Recorded σ) =
        onState (fun s => (s.1, ⟨s.2, before ++ calls⟩)) (collect config rounds first r link) ∧
      R calls (outcome (collect config rounds first r link)))
    (hRS : ∀ calls r reply, R calls r → S calls (r.map fun _ => reply)) :
    Makes recorded (readReply (σ := Recorded σ)) (readReply (σ := σ)) S := by
  intro c before
  obtain ⟨calls, hrun, hcalls⟩ := hcollect c.config (Transport.horizon c.link) true
    (.start c.config.maxReplyBytes c.inbox) c.link before
  -- a record changes neither the settings nor how long a tail is skipped
  have hrecorded : collect (c.recorded before).config
      (Transport.horizon (c.recorded before).link) true
      (.start (c.recorded before).config.maxReplyBytes (c.recorded before).inbox)
      (c.recorded before).link = _ := hrun
  refine ⟨calls, ?_, ?_⟩
  · rw [readReply_eq, readReply_eq, hrecorded]
    cases collect c.config (Transport.horizon c.link) true
      (.start c.config.maxReplyBytes c.inbox) c.link <;> rfl
  · rw [readReply_eq]
    cases hrun' : collect c.config (Transport.horizon c.link) true
        (.start c.config.maxReplyBytes c.inbox) c.link with
    | ok u s =>
      rw [hrun'] at hcalls
      exact hRS calls _ s.1.scanner.finish hcalls
    | error stop s =>
      rw [hrun'] at hcalls
      exact hRS calls _ s.1.scanner.finish hcalls

/-- The loop that puts a reply together makes only probes, fetches and reads. A write that fails
    ends it. -/
theorem collect_makes (config : Config) (rounds : Nat) (first : Bool) (r : Reassembly) (link : σ)
    (before : List Call) :
    ∃ calls, collect config rounds first r (⟨link, before⟩ : Recorded σ) =
        onState (fun s => (s.1, ⟨s.2, before ++ calls⟩)) (collect config rounds first r link) ∧
      Probes calls ∧ Unresumed calls :=
  makes_collect (R := fun calls _ => Probes calls ∧ Unresumed calls) (nextRead_makes config)
    ⟨.nil, .nil⟩ ⟨.nil, .nil⟩ (fun _ _ h _ => ⟨h.probes, h.stops.last⟩)
    (fun _ _ h => ⟨h.probes, h.stops.last⟩)
    (fun _ _ _ _ h hlater => ⟨h.probes.append hlater.1, h.stops.unresumed_append hlater.2⟩)
    rounds first r link before

/-- Reading a reply makes probes, fetches and reads only, and it stops at a write that fails. -/
theorem readReply_makes :
    Makes recorded (readReply (σ := Recorded σ)) (readReply (σ := σ)) fun calls _ =>
      Probes calls ∧ Unresumed calls :=
  makes_readReply (R := fun calls _ => Probes calls ∧ Unresumed calls) collect_makes
    fun _ _ _ h => h

/-! ### An exchange -/

/-- A flush is one frame, and the read of its answer, in whose place silence does as well. What `P`
    says of a flush in each case it says of every flush. -/
theorem makes_flush {P : List Call → Except (Stop LinkError) Unit → Prop}
    (hunsent : ∀ cause, P [.write Frame.flush.encode (.error cause)] (.error (.failed cause)))
    (hanswer : ∀ count ms bytes,
      P [.write Frame.flush.encode (.ok count), .read 1 ms (.ok bytes)] (.ok ()))
    (hsilent : ∀ count ms cause, cause.isTimeout = true →
      P [.write Frame.flush.encode (.ok count), .read 1 ms (.error cause)] (.ok ()))
    (hfailed : ∀ count ms cause, cause.isTimeout = false →
      P [.write Frame.flush.encode (.ok count), .read 1 ms (.error cause)]
        (.error (.failed cause))) :
    Makes recorded (flush (σ := Recorded σ)) (flush (σ := σ)) P := by
  intro c before
  obtain ⟨_, hrun, sent, rfl, hsent⟩ := Link.send_calls Frame.flush c.link before
  have hsend : Link.send Frame.flush (c.recorded before).link = _ := hrun
  rw [flush_eq, flush_eq, hsend]
  cases hflush : Link.send Frame.flush c.link with
  | error cause link =>
    rw [hflush] at hsent
    -- a write that fails is the last call
    cases sent with
    | ok count => exact nomatch hsent
    | error other =>
      obtain rfl := Except.error.inj hsent
      exact ⟨_, rfl, hunsent cause⟩
  | ok u link =>
    rw [hflush] at hsent
    cases sent with
    | error other => exact nomatch hsent
    | ok count =>
      obtain ⟨_, hrun', rfl⟩ := Link.read_makes 1 c.config.timeoutMs link
        (before ++ [.write Frame.flush.encode (.ok count)])
      rw [List.append_assoc] at hrun'
      have hread : Transport.read 1 (c.recorded before).config.timeoutMs
          (⟨link, before ++ [.write Frame.flush.encode (.ok count)]⟩ : Recorded σ) = _ := hrun'
      simp only [onState, hread]
      cases (Transport.read 1 c.config.timeoutMs : Link σ _) link with
      | ok bytes link => exact ⟨_, rfl, hanswer count _ bytes⟩
      | error cause link =>
        dsimp only
        -- silence is as good as an answer
        by_cases hcause : cause.isTimeout = true
        · rw [if_pos hcause, if_pos hcause]
          exact ⟨_, rfl, hsilent count _ cause hcause⟩
        · rw [if_neg hcause, if_neg hcause]
          exact ⟨_, rfl, hfailed count _ cause (by simpa using hcause)⟩

/-- A flush hands over its one frame and nothing after a write that fails. -/
theorem flush_makes :
    Makes recorded (flush (σ := Recorded σ)) (flush (σ := σ)) fun calls r =>
      written calls = [Frame.flush.encode] ∧ StopsAtFailure calls r :=
  have hsent : ∀ count, StopsAtFailure [.write Frame.flush.encode (.ok count)]
      (.ok () : Except LinkError Unit) := fun _ => .single fun _ _ => rfl
  makes_flush (fun _ => ⟨rfl, .single nofun⟩)
    (fun count _ _ => ⟨rfl, (hsent count).append (.single fun _ _ => rfl)⟩)
    (fun count _ _ _ => ⟨rfl, (hsent count).append (.single fun _ _ => rfl)⟩)
    (fun count _ _ _ => ⟨rfl, (hsent count).append (.single fun _ _ => rfl)⟩)

/-- The command goes out with one write. What `P` says of it in each case it says of every
    command. -/
theorem makes_sendCommand {command : Bytes} {P : List Call → Except (Stop LinkError) Unit → Prop}
    (hunsent : ∀ cause, P [.write (Frame.ofCommand command).encode (.error cause)]
      (.error (.failed cause)))
    (hsent : ∀ count, P [.write (Frame.ofCommand command).encode (.ok count)] (.ok ())) :
    Makes recorded (sendCommand (σ := Recorded σ) command) (sendCommand (σ := σ) command) P := by
  intro c before
  obtain ⟨_, hrun, sent, rfl, hout⟩ := Link.send_calls (Frame.ofCommand command) c.link before
  have hsend : Link.send (Frame.ofCommand command) (c.recorded before).link = _ := hrun
  rw [sendCommand, sendCommand, hsend]
  -- the record of the write has the outcome that the sending has
  cases hcommand : Link.send (Frame.ofCommand command) c.link with
  | ok u link =>
    rw [hcommand] at hout
    cases sent with
    | ok count => exact ⟨_, rfl, hsent count⟩
    | error other => cases hout
  | error cause link =>
    rw [hcommand] at hout
    cases sent with
    | ok count => cases hout
    | error other =>
      obtain rfl := Except.error.inj hout
      exact ⟨_, rfl, hunsent cause⟩

/-- The beginning of an exchange is the flush, if one is wanted, and then the command. What it calls
    may depend on whether a flush is wanted. -/
theorem makes_beginExchange {command : Bytes}
    {P Q : List Call → Except (Stop LinkError) Unit → Prop}
    {R : Bool → List Call → Except (Stop LinkError) Unit → Prop}
    (hflush : Makes recorded (flush (σ := Recorded σ)) (flush (σ := σ)) P)
    (hsend : Makes recorded (sendCommand (σ := Recorded σ) command)
      (sendCommand (σ := σ) command) Q)
    (hstopped : ∀ calls stop, P calls (.error stop) → R true calls (.error stop))
    (hflushed : ∀ calls later r, P calls (.ok ()) → Q later r → R true (calls ++ later) r)
    (hunflushed : ∀ calls r, Q calls r → R false calls r) (c : Channel σ) (before : List Call) :
    ∃ calls, beginExchange command (c.recorded before) =
        onState (·.recorded (before ++ calls)) (beginExchange command c) ∧
      R c.config.flushBeforeWrite calls (outcome (beginExchange command c)) := by
  -- with a flush, the two follow each other on both transports
  have hboth : Makes recorded (flush (σ := Recorded σ) >>= fun _ => sendCommand command)
      (flush (σ := σ) >>= fun _ => sendCommand command) (R true) :=
    hflush.bind (fun _ => hsend) (fun calls _ => hflushed calls) hstopped
  rw [beginExchange, beginExchange]
  cases hwanted : c.config.flushBeforeWrite with
  | true =>
    rw [if_pos rfl, if_pos (by exact hwanted)]
    exact hboth { c with lastWritten := 0 } before
  | false =>
    have hnone : ¬ (c.recorded before).config.flushBeforeWrite = true :=
      fun hflush => Bool.false_ne_true (hwanted.symm.trans hflush)
    rw [if_neg Bool.false_ne_true, if_neg hnone]
    exact hsend.mono hunflushed { c with lastWritten := 0 } before

/-- The calls before the reply is read: the flush if one is wanted, and then the command unless the
    flush has failed. -/
structure Begun (command : Bytes) (flushed : Bool) (calls : List Call)
    (r : Except (Stop LinkError) Unit) : Prop where
  phases : ∃ flushing commanding, calls = flushing ++ commanding ∧
    written flushing = (if flushed then [Frame.flush.encode] else []) ∧
    ((∃ outcome, commanding = [.write (Frame.ofCommand command).encode outcome]) ∨
      commanding = [] ∧ r ≠ .ok ())
  stops : StopsAtFailure calls r

/-- An exchange begins with the flush, if one is wanted, and the command. -/
private theorem beginExchange_begun (command : Bytes) (c : Channel σ) (before : List Call) :
    ∃ calls, beginExchange command (c.recorded before) =
        onState (·.recorded (before ++ calls)) (beginExchange command c) ∧
      Begun command c.config.flushBeforeWrite calls (outcome (beginExchange command c)) := by
  have hsend : Makes recorded (sendCommand (σ := Recorded σ) command)
      (sendCommand (σ := σ) command) fun calls r =>
        (∃ outcome, calls = [.write (Frame.ofCommand command).encode outcome]) ∧
          StopsAtFailure calls r :=
    makes_sendCommand (fun _ => ⟨⟨_, rfl⟩, .single nofun⟩)
      fun _ => ⟨⟨_, rfl⟩, .single fun _ _ => rfl⟩
  refine makes_beginExchange (R := Begun command) flush_makes hsend ?_ ?_ ?_ c before
  · -- a flush that fails is all there is
    rintro calls stop ⟨hwritten, hstops⟩
    exact ⟨⟨calls, [], (List.append_nil calls).symm, hwritten, Or.inr ⟨rfl, nofun⟩⟩, hstops⟩
  · rintro calls later r ⟨hwritten, hstops⟩ ⟨hcommand, hlater⟩
    exact ⟨⟨calls, later, rfl, hwritten, Or.inl hcommand⟩, hstops.append hlater⟩
  · rintro calls r ⟨hcommand, hstops⟩
    exact ⟨⟨[], calls, rfl, rfl, Or.inl hcommand⟩, hstops⟩

/-- The calls of an exchange: the flush if one is wanted, then the command, and then what reads the
    reply. Where a write fails they stop. -/
structure Commanded (config : Config) (command : Bytes) (calls : List Call) : Prop where
  phases : ∃ flushing commanding probing, calls = flushing ++ commanding ++ probing ∧
    written flushing = (if config.flushBeforeWrite then [Frame.flush.encode] else []) ∧
    ((∃ outcome, commanding = [.write (Frame.ofCommand command).encode outcome]) ∨
      commanding = [] ∧ probing = []) ∧
    Probes probing
  last : Unresumed calls

/-- No other frame is taken for a command. -/
private theorem encode_ofCommand_ne {command : Bytes} {frame : Frame}
    (hget : frame.opcode ≠ Frame.Opcode.getResponse)
    (hcontrol : frame.opcode ≠ Frame.Opcode.controlResponse) :
    frame.encode ≠ (Frame.ofCommand command).encode := by
  intro h
  have hopcode : frame.opcode = (Frame.ofCommand command).opcode :=
    (List.cons.inj (List.cons.inj h).2).1
  rw [Frame.ofCommand] at hopcode
  cases hcharacter : Frame.controlCharacter? command with
  | some character => exact hcontrol (by rw [hopcode, hcharacter]; rfl)
  | none => exact hget (by rw [hopcode, hcharacter]; rfl)

/-- The frame of the command goes out at most once. -/
private theorem Commanded.count_le {config : Config} {command : Bytes} {calls : List Call}
    (h : Commanded config command calls) :
    (written calls).count (Frame.ofCommand command).encode ≤ 1 := by
  -- of the three parts only the middle one can have the frame of the command
  obtain ⟨flushing, commanding, probing, rfl, hflushing, hcommanding, hprobing⟩ := h.phases
  have hflush : (written flushing).count (Frame.ofCommand command).encode = 0 := by
    refine List.count_eq_zero_of_not_mem fun hmem => ?_
    rw [hflushing] at hmem
    split at hmem
    · exact encode_ofCommand_ne (by decide) (by decide) (List.mem_singleton.mp hmem).symm
    · exact nomatch hmem
  have hprobes : (written probing).count (Frame.ofCommand command).encode = 0 := by
    refine List.count_eq_zero_of_not_mem fun hmem => ?_
    obtain hprobe | hfetch := hprobing.mem_written hmem
    · exact encode_ofCommand_ne (by decide) (by decide) hprobe.symm
    · exact encode_ofCommand_ne (by decide) (by decide) hfetch.symm
  have hcommand : (written commanding).count (Frame.ofCommand command).encode ≤ 1 := by
    obtain ⟨outcome', rfl⟩ | ⟨rfl, -⟩ := hcommanding
    · exact List.count_le_length
    · exact Nat.zero_le 1
  rw [written_append, written_append, List.count_append, List.count_append]
  omega

/-- A single control character is a command of its own kind. -/
private theorem opcode_ofCommand (command : Bytes) :
    (Frame.ofCommand command).opcode =
      if (Frame.controlCharacter? command).isSome then Frame.Opcode.controlResponse
      else Frame.Opcode.getResponse := by
  rw [Frame.ofCommand]
  cases Frame.controlCharacter? command <;> rfl

/-- What an exchange calls, whatever comes of it. If there is a reply, the command went out. -/
theorem writeRead_makes (command : Bytes) (c : Channel σ) (before : List Call) :
    ∃ calls, writeRead command (c.recorded before) =
        onState (·.recorded (before ++ calls)) (writeRead command c) ∧
      Commanded c.config command calls ∧
      ((outcome (writeRead command c)).isOk = true →
        (Frame.ofCommand command).encode ∈ written calls) := by
  obtain ⟨calls, hrun, hbegun⟩ := beginExchange_begun command c before
  rw [writeRead_eq_begin, writeRead_eq_begin, bind_run, bind_run, hrun]
  cases hbegin : beginExchange command c with
  | error stop c' =>
    -- the command did not go out, or it failed to, and nothing follows
    rw [hbegin] at hbegun
    obtain ⟨flushing, commanding, rfl, hflushing, hcommanding⟩ := hbegun.phases
    refine ⟨_, rfl, ⟨⟨flushing, commanding, [], (List.append_nil _).symm, hflushing,
      hcommanding.imp_right fun h => ⟨h.1, rfl⟩, .nil⟩, hbegun.stops.last⟩, nofun⟩
  | ok u c' =>
    rw [hbegin] at hbegun
    obtain ⟨flushing, commanding, rfl, hflushing, ⟨sent, rfl⟩ | ⟨-, hfailed⟩⟩ := hbegun.phases
    · -- with the command out, what follows are the probes of the reply
      have hreply := (readReply_makes (σ := σ)).bind_pure
        (R := fun calls _ => Probes calls ∧ Unresumed calls)
        (fun reply => ({ written := min command.length Frame.maxPayload, reply } : Exchange))
        (fun _ _ h => h) fun _ _ h => h
      obtain ⟨probing, hread, hprobes, hlast⟩ :=
        hreply c' (before ++ (flushing ++ [.write (Frame.ofCommand command).encode sent]))
      refine ⟨flushing ++ [.write (Frame.ofCommand command).encode sent] ++ probing, ?_,
        ⟨⟨flushing, _, probing, rfl, hflushing, Or.inl ⟨sent, rfl⟩, hprobes⟩,
          hbegun.stops.unresumed_append hlast⟩, fun _ => ?_⟩
      · rw [List.append_assoc] at hread
        exact hread
      · rw [written_append, written_append, written_write]
        exact List.mem_append_left _ (List.mem_append_right _ List.mem_cons_self)
    · exact absurd rfl hfailed

/-- What an exchange puts on record. -/
theorem writeRead_calls (command : Bytes) (c : Channel (Recorded σ)) :
    ∃ calls, (finalState (writeRead command c)).link.calls = c.link.calls ++ calls ∧
      Commanded c.config command calls ∧
      ((outcome (writeRead command c)).isOk = true →
        (Frame.ofCommand command).encode ∈ written calls) := by
  obtain ⟨calls, hrun, hcommanded, hmem⟩ :=
    writeRead_makes command { c with link := c.link.link } c.link.calls
  have hwrite : writeRead command c = _ := hrun
  rw [hwrite]
  cases hcase : writeRead command { c with link := c.link.link } with
  | ok x c' =>
    rw [hcase] at hmem
    exact ⟨calls, rfl, hcommanded, hmem⟩
  | error stop c' => exact ⟨calls, rfl, hcommanded, nofun⟩

/-- Connecting anew is one call. -/
theorem reconnect_calls (c : Channel (Recorded σ)) :
    ∃ result, (finalState (reconnect c)).link.calls = c.link.calls ++ [.reconnect result] ∧
      ((outcome (reconnect c)).isOk = true ↔ result = .ok ()) ∧
      (finalState (reconnect c)).config = c.config := by
  -- a reconnection empties the inbox first, and is recorded with its outcome
  have hrun : reconnect c =
      match (Transport.reconnect : Link σ Unit) c.link.link with
      | .ok _ link =>
        .ok () { c with inbox := {}, link := ⟨link, c.link.calls ++ [.reconnect (.ok ())]⟩ }
      | .error cause link =>
        .error (.failed cause)
          { c with inbox := {}, link := ⟨link, c.link.calls ++ [.reconnect (.error cause)]⟩ } := by
    change onLink (Recorded.record Transport.reconnect .reconnect) { c with inbox := {} } = _
    simp only [onLink, Recorded.record]
    cases (Transport.reconnect : Link σ Unit) c.link.link <;> rfl
  rw [hrun]
  cases (Transport.reconnect : Link σ Unit) c.link.link with
  | ok u link => exact ⟨.ok (), rfl, iff_of_true rfl rfl, rfl⟩
  | error cause link => exact ⟨.error cause, rfl, iff_of_false Bool.false_ne_true (by simp), rfl⟩

/-- **The frames of an exchange.** Whatever a transport does, what an exchange hands to it is a
    flush, exactly if one is wanted, then at most once the command, then probes, of which each may
    be followed at once by a fetch if two bytes came in answer and the first is not zero. Nothing
    follows a write that failed. -/
theorem writeRead_commanded (command : Bytes) (c : Channel σ) (before : List Call) :
    ∃ calls, writeRead command (c.recorded before) =
        onState (·.recorded (before ++ calls)) (writeRead command c) ∧
      Commanded c.config command calls ∧
      (written calls).count (Frame.ofCommand command).encode ≤ 1 ∧
      (Frame.ofCommand command).opcode =
        if (Frame.controlCharacter? command).isSome then Frame.Opcode.controlResponse
        else Frame.Opcode.getResponse := by
  obtain ⟨calls, hrun, hcommanded, -⟩ := writeRead_makes command c before
  exact ⟨calls, hrun, hcommanded, hcommanded.count_le, opcode_ofCommand command⟩

end Channel

end PmacPoll
