import PmacPoll.Proofs.CommandBytes
import PmacPoll.Proofs.LinkOrder

/-!
# The accounts of a gateway

What a gateway counts is told from the exchanges that it tries, each with the calls that it makes on
the transport and what it comes to. `Deals` is what is done on the link from one channel to another,
and `Booked` what that adds to the statistics and to the counters: both say the same of every
exchange, except that the counters leave out what a failed one wrote.

Every step of a gateway books what it does, `Step.booked`, and so after any run the two accounts
agree with each other and with the calls on record, `run_accounts`.
-/

namespace PmacPoll.Gateway

open Running

variable {σ κ ω : Type}

/-! ### What is done on the link -/

/-- An exchange that was tried: its command, the calls that it made, and its reply or why there is
    none. -/
structure Attempt where
  command : String
  calls : List Call
  result : Except LinkError Reply

namespace Attempt

/-- Is there no reply? -/
def failed (attempt : Attempt) : Bool :=
  !attempt.result.isOk

/-- Was there silence in place of a reply? -/
def timedOut (attempt : Attempt) : Bool :=
  match attempt.result with
  | .ok _ => false
  | .error cause => cause.isTimeout

/-- Did the connection break? -/
def brokeOff (attempt : Attempt) : Bool :=
  match attempt.result with
  | .ok _ => false
  | .error cause => cause.isTransport

/-- The bytes of the command that went out. -/
def sent (attempt : Attempt) : Bytes :=
  commandData attempt.calls

/-- The bytes of the reply. -/
def received (attempt : Attempt) : Bytes :=
  match attempt.result with
  | .ok reply => reply.data
  | .error _ => []

end Attempt

/-- What is done on the link: an exchange is tried, or the transport is connected anew. -/
inductive Dealing where
  | exchange (attempt : Attempt)
  | reconnect (calls : List Call)

namespace Dealing

def attempt? : Dealing → Option Attempt
  | exchange attempt => some attempt
  | reconnect _ => none

def calls : Dealing → List Call
  | exchange attempt => attempt.calls
  | reconnect calls => calls

end Dealing

/-- The exchanges that were tried. -/
def triedIn (dealings : List Dealing) : List Attempt :=
  dealings.filterMap Dealing.attempt?

/-- What a channel does in a dealing, with the calls that it puts on record. -/
inductive Dealt [Transport σ] (c : Channel (Recorded σ)) :
    Dealing → Channel (Recorded σ) → Prop where
  | replied {command : String} {calls : List Call} {x : Exchange} {c' : Channel (Recorded σ)} :
      Channel.writeRead (Utf8.encode command) c = .ok x c' →
      c'.link.calls = c.link.calls ++ calls →
      Dealt c (.exchange ⟨command, calls, .ok x.reply⟩) c'
  | failed {command : String} {calls : List Call} {cause : LinkError}
      {c' : Channel (Recorded σ)} :
      Channel.writeRead (Utf8.encode command) c = .error (.failed cause) c' →
      c'.link.calls = c.link.calls ++ calls →
      Dealt c (.exchange ⟨command, calls, .error cause⟩) c'
  | reconnected {result : Except LinkError Unit} {c' : Channel (Recorded σ)} :
      finalState (Channel.reconnect c) = c' →
      c'.link.calls = c.link.calls ++ [.reconnect result] →
      Dealt c (.reconnect [.reconnect result]) c'

/-- Some dealings, one after another. -/
inductive Deals [Transport σ] :
    Channel (Recorded σ) → List Dealing → Channel (Recorded σ) → Prop where
  | refl (c : Channel (Recorded σ)) : Deals c [] c
  | head {c c₁ c₂ : Channel (Recorded σ)} {dealing : Dealing} {later : List Dealing} :
      Dealt c dealing c₁ → Deals c₁ later c₂ → Deals c (dealing :: later) c₂

section Deals

variable [Transport σ] {c c₁ c₂ : Channel (Recorded σ)} {dealing : Dealing}
  {dealings later : List Dealing}

/-- One dealing is a list of one. -/
private theorem Dealt.deals (h : Dealt c dealing c₁) : Deals c [dealing] c₁ :=
  .head h (.refl c₁)

/-- What is dealt one after another is dealt in order. -/
theorem Deals.trans (h : Deals c dealings c₁) (h' : Deals c₁ later c₂) :
    Deals c (dealings ++ later) c₂ := by
  induction h with
  | refl => exact h'
  | head hdealt _ ih => exact .head hdealt (ih h')

/-- The calls on record grow by those of the dealing. -/
private theorem Dealt.calls_eq (h : Dealt c dealing c₁) :
    c₁.link.calls = c.link.calls ++ dealing.calls := by
  cases h <;> assumption

/-- The calls that are on record in the end are those of the dealings. -/
private theorem Deals.calls_eq (h : Deals c dealings c₁) :
    c₁.link.calls = c.link.calls ++ dealings.flatMap Dealing.calls := by
  induction h with
  | refl => exact (List.append_nil _).symm
  | head hdealt _ ih => rw [ih, hdealt.calls_eq, List.append_assoc, List.flatMap_cons]

/-- All command bytes that went out went out in an exchange. -/
private theorem Deals.commandData_eq (h : Deals c dealings c₁) :
    commandData (dealings.flatMap Dealing.calls) = (triedIn dealings).flatMap Attempt.sent := by
  induction h with
  | refl => rfl
  | head hdealt _ ih =>
    rw [List.flatMap_cons, commandData_append, ih]
    cases hdealt with
    | replied | failed => rfl
    | reconnected => exact List.nil_append _

end Deals

/-! ### What is counted -/

/-- What a gateway counts: the statistics of its connection, and the counters. -/
structure Books where
  statistics : Statistics
  counters : Counters

def books (g : Gateway σ κ ω) : Books :=
  ⟨g.statistics, g.counters⟩

/-- What some exchanges add to the books. -/
structure Booked (b : Books) (tried : List Attempt) (b' : Books) : Prop where
  messages : b'.statistics.messages = b.statistics.messages + UInt64.ofNat tried.length
  failures : b'.statistics.failures =
    b.statistics.failures + UInt64.ofNat (tried.countP Attempt.failed)
  bytesWritten : b'.statistics.bytesWritten =
    b.statistics.bytesWritten + UInt64.ofNat (tried.flatMap Attempt.sent).length
  bytesRead : b'.statistics.bytesRead =
    b.statistics.bytesRead + UInt64.ofNat (tried.flatMap Attempt.received).length
  lastWritten : b'.statistics.lastBytesWritten = match tried.getLast? with
    | some attempt => UInt64.ofNat attempt.sent.length
    | none => b.statistics.lastBytesWritten
  lastRead : b'.statistics.lastBytesRead = match tried.getLast? with
    | some attempt => UInt64.ofNat attempt.received.length
    | none => b.statistics.lastBytesRead
  transactions : b'.counters.transactions =
    b.counters.transactions + UInt64.ofNat tried.length
  countedFailures : b'.counters.failures =
    b.counters.failures + UInt64.ofNat (tried.countP Attempt.failed)
  timeouts : b'.counters.timeouts =
    b.counters.timeouts + UInt64.ofNat (tried.countP Attempt.timedOut)
  transportErrors : b'.counters.transportErrors =
    b.counters.transportErrors + UInt64.ofNat (tried.countP Attempt.brokeOff)
  countedWritten : b'.counters.bytesWritten = b.counters.bytesWritten +
    UInt64.ofNat ((tried.filter (!·.failed)).flatMap Attempt.sent).length
  countedRead : b'.counters.bytesRead =
    b.counters.bytesRead + UInt64.ofNat (tried.flatMap Attempt.received).length

namespace Booked

variable {b b₁ b₂ : Books} {tried later : List Attempt}

/-- What is counted besides: replies that are short or report an error, sessions, and refreshes that
    are left out. -/
private theorem beside (b : Books) (mismatches deviceErrors reconnects suppressedUpdates : UInt64) :
    Booked b [] { b with counters := { b.counters with
      mismatches, deviceErrors, reconnects, suppressedUpdates } } := by
  constructor <;> first | rfl | exact (UInt64.add_zero _).symm

/-- Without an attempt nothing is added. -/
theorem refl (b : Books) : Booked b [] b :=
  beside b _ _ _ _

/-- Sums go on modulo the width of the word. -/
private theorem add_ofNat_add {x y z : UInt64} {m n : Nat} (h : y = x + UInt64.ofNat m)
    (h' : z = y + UInt64.ofNat n) : z = x + UInt64.ofNat (m + n) := by
  rw [h', h, UInt64.ofNat_add, UInt64.add_assoc]

/-- The last figure is that of the last attempt, be it among the later ones or before. -/
private theorem last_append {x y z : UInt64} {f : Attempt → UInt64}
    (h : y = match tried.getLast? with | some attempt => f attempt | none => x)
    (h' : z = match later.getLast? with | some attempt => f attempt | none => y) :
    z = match (tried ++ later).getLast? with | some attempt => f attempt | none => x := by
  rw [List.getLast?_append]
  cases hlater : later.getLast? with
  | some attempt => rw [hlater] at h'; exact h'
  | none => rw [hlater] at h'; exact h'.trans h

/-- What is booked one after another is booked in order. -/
theorem trans (h : Booked b tried b₁) (h' : Booked b₁ later b₂) :
    Booked b (tried ++ later) b₂ where
  -- every count is that of the two lists together
  messages := by rw [List.length_append]; exact add_ofNat_add h.messages h'.messages
  failures := by rw [List.countP_append]; exact add_ofNat_add h.failures h'.failures
  bytesWritten := by
    rw [List.flatMap_append, List.length_append]
    exact add_ofNat_add h.bytesWritten h'.bytesWritten
  bytesRead := by
    rw [List.flatMap_append, List.length_append]
    exact add_ofNat_add h.bytesRead h'.bytesRead
  lastWritten := last_append h.lastWritten h'.lastWritten
  lastRead := last_append h.lastRead h'.lastRead
  transactions := by rw [List.length_append]; exact add_ofNat_add h.transactions h'.transactions
  countedFailures := by
    rw [List.countP_append]
    exact add_ofNat_add h.countedFailures h'.countedFailures
  timeouts := by rw [List.countP_append]; exact add_ofNat_add h.timeouts h'.timeouts
  transportErrors := by
    rw [List.countP_append]
    exact add_ofNat_add h.transportErrors h'.transportErrors
  countedWritten := by
    rw [List.filter_append, List.flatMap_append, List.length_append]
    exact add_ofNat_add h.countedWritten h'.countedWritten
  countedRead := by
    rw [List.flatMap_append, List.length_append]
    exact add_ofNat_add h.countedRead h'.countedRead

end Booked

/-- A list of one attempt adds what that attempt does. -/
private theorem add_ofNat_one (x : UInt64) (f : Attempt → Bytes) (attempt : Attempt) :
    x + UInt64.ofNat (f attempt).length = x + UInt64.ofNat ([attempt].flatMap f).length := by
  rw [List.flatMap_singleton]

/-- An exchange that got its reply is booked. -/
private theorem booked_recordReply (g : Gateway σ κ ω) {x : Exchange} {calls : List Call}
    (hwritten : x.written = (commandData calls).length) (command : String) (elapsed : Nat) :
    Booked g.books [⟨command, calls, .ok x.reply⟩] (recordReply x elapsed g).books := by
  -- an attempt with a reply did not fail
  have hreplied : [(⟨command, calls, .ok x.reply⟩ : Attempt)].filter (!·.failed) =
      [⟨command, calls, .ok x.reply⟩] := rfl
  have hone (y : UInt64) (f : Attempt → Bytes) :=
    add_ofNat_one y f ⟨command, calls, .ok x.reply⟩
  rw [recordReply, hwritten]
  exact {
    messages := rfl
    failures := (UInt64.add_zero _).symm
    bytesWritten := hone g.statistics.bytesWritten Attempt.sent
    bytesRead := hone g.statistics.bytesRead Attempt.received
    lastWritten := rfl
    lastRead := rfl
    transactions := rfl
    countedFailures := (UInt64.add_zero _).symm
    timeouts := (UInt64.add_zero _).symm
    transportErrors := (UInt64.add_zero _).symm
    countedWritten := by rw [hreplied]; exact hone g.counters.bytesWritten Attempt.sent
    countedRead := hone g.counters.bytesRead Attempt.received }

/-- An exchange that failed is booked, with the bytes of its command that went out. -/
private theorem booked_recordFailure (g : Gateway σ κ ω) {calls : List Call}
    (hwritten : g.channel.lastWritten = (commandData calls).length) (command : String)
    (cause : LinkError) (elapsed : Nat) :
    Booked g.books [⟨command, calls, .error cause⟩] (recordFailure cause elapsed g).books := by
  rw [recordFailure, hwritten]
  have hsent := add_ofNat_one g.statistics.bytesWritten Attempt.sent
    ⟨command, calls, .error cause⟩
  -- at most one of the two causes that are counted is the cause
  cases cause <;> constructor <;> first | rfl | exact (UInt64.add_zero _).symm | exact hsent

/-! ### Every step is booked -/

section Steps

variable [Transport σ] {g g' : Gateway (Recorded σ) κ ω}

/-- An exchange that gives a reply is dealt and booked as such. -/
private theorem exchange_ok_booked {command : String} {reply : Reply}
    (h : exchange command g = .ok reply g') :
    ∃ attempt, Dealt g.channel (.exchange attempt) g'.channel ∧
      Booked g.books [attempt] g'.books := by
  obtain ⟨x, channel, hwrite, rfl, rfl⟩ := exchange_ok h
  obtain ⟨calls, hcalls, -, hwritten⟩ :=
    Channel.writeRead_counted (Utf8.encode command) g.channel
  rw [hwrite] at hcalls
  exact ⟨_, .replied hwrite hcalls,
    booked_recordReply { g with channel } (hwritten x channel hwrite) command _⟩

/-- One that fails is dealt and booked as a failure. -/
private theorem exchange_failed_booked {command : String} {e : GatewayError}
    (h : exchange command g = .error (.failed e) g') :
    ∃ attempt, Dealt g.channel (.exchange attempt) g'.channel ∧
      Booked g.books [attempt] g'.books := by
  obtain ⟨cause, channel, hwrite, -, rfl⟩ := exchange_failed h
  obtain ⟨calls, hcalls, hwritten, -⟩ :=
    Channel.writeRead_counted (Utf8.encode command) g.channel
  rw [hwrite] at hcalls hwritten
  exact ⟨_, .failed hwrite hcalls,
    booked_recordFailure { g with channel } hwritten command cause _⟩

/-- Connecting anew is dealt, and not booked. -/
private theorem reconnect_dealt {channel : Channel (Recorded σ)} {c : Channel (Recorded σ)}
    (h : finalState (Channel.reconnect c) = channel) :
    ∃ calls, Dealt c (.reconnect calls) channel := by
  obtain ⟨result, hcalls, -, -⟩ := Channel.reconnect_calls c
  rw [h] at hcalls
  exact ⟨_, .reconnected h hcalls⟩

variable [Listener κ ω] {deeds : List Deed}

/-- Every step of a gateway books what it deals. -/
theorem Step.booked (h : Step g deeds g') :
    ∃ dealings, Deals g.channel dealings g'.channel ∧
      Booked g.books (triedIn dealings) g'.books := by
  cases h with
  -- considering a refresh books nothing
  | considered tier =>
    obtain ⟨count, h⟩ := snd_suppresses tier g
    rw [h]
    exact ⟨[], .refl _, .refl _⟩
  | leftOut | reported => exact ⟨[], .refl _, .beside _ _ _ _ _⟩
  | @completed tier started replies =>
    obtain ⟨mismatches, deviceErrors, hcounters⟩ :=
      Stored.counters_replies ⟨g.table tier, g.counters, none⟩ replies
    -- the replies of a refresh change two counters that are no part of the accounts
    have hbooks : (g.completed tier started replies).books =
        ⟨g.statistics, { g.counters with mismatches, deviceErrors }⟩ :=
      congrArg (Books.mk g.statistics) hcounters
    rw [hbooks]
    exact ⟨[], .refl _, .beside _ _ _ _ _⟩
  | replied _ hexchange =>
    obtain ⟨attempt, hdealt, hbooked⟩ := exchange_ok_booked hexchange
    exact ⟨_, hdealt.deals, hbooked⟩
  | lost _ hexchange =>
    obtain ⟨attempt, hdealt, hbooked⟩ := exchange_failed_booked hexchange
    exact ⟨_, hdealt.deals, hbooked⟩
  | refused _ hdial =>
    obtain ⟨calls, hdealt⟩ := reconnect_dealt (congrArg finalState hdial)
    exact ⟨_, hdealt.deals, .refl _⟩
  | proved _ hdial hexchange =>
    obtain ⟨calls, hdialled⟩ := reconnect_dealt (congrArg finalState hdial)
    obtain ⟨attempt, hdealt, hbooked⟩ := exchange_ok_booked hexchange
    -- a session that begins is counted apart from the exchanges
    exact ⟨_, .head hdialled hdealt.deals, hbooked.trans (.beside _ _ _ _ _)⟩
  | unproved _ hdial hexchange =>
    obtain ⟨calls, hdialled⟩ := reconnect_dealt (congrArg finalState hdial)
    obtain ⟨attempt, hdealt, hbooked⟩ := exchange_failed_booked hexchange
    exact ⟨_, .head hdialled hdealt.deals, hbooked⟩
  | _ => exact ⟨[], .refl _, .refl _⟩

/-- So does a run. -/
theorem Steps.booked (h : Steps g deeds g') :
    ∃ dealings, Deals g.channel dealings g'.channel ∧
      Booked g.books (triedIn dealings) g'.books := by
  induction h with
  | refl => exact ⟨[], .refl _, .refl _⟩
  | head hstep _ ih =>
    obtain ⟨dealings, hdeals, hbooked⟩ := hstep.booked
    obtain ⟨later, hlater, hbooked'⟩ := ih
    refine ⟨dealings ++ later, hdeals.trans hlater, ?_⟩
    rw [triedIn, List.filterMap_append]
    exact hbooked.trans hbooked'

end Steps

/-! ### A run -/

/-- The two accounts of a gateway since `start`, told from all that was done on the link. What the
    counters have grown by is theirs. -/
structure Accounts [Transport σ] (start g : Gateway (Recorded σ) κ ω)
    (dealings : List Dealing) : Prop where
  deals : Deals start.channel dealings g.channel
  calls : g.channel.link.calls = dealings.flatMap Dealing.calls
  /-- Every exchange is counted, probes included. -/
  messages : g.statistics.messages = UInt64.ofNat (triedIn dealings).length
  failures : g.statistics.failures = UInt64.ofNat ((triedIn dealings).countP Attempt.failed)
  transactions : (g.counters.since start.counters).transactions = g.statistics.messages
  countedFailures : (g.counters.since start.counters).failures = g.statistics.failures
  /-- The command bytes that the transport took, whether or not a reply came. -/
  bytesWritten : g.statistics.bytesWritten = UInt64.ofNat (commandData g.channel.link.calls).length
  /-- Of those, the counters have the ones of the exchanges that got their reply. -/
  countedWritten : (g.counters.since start.counters).bytesWritten =
    UInt64.ofNat (((triedIn dealings).filter (!·.failed)).flatMap Attempt.sent).length
  bytesRead : g.statistics.bytesRead =
    UInt64.ofNat ((triedIn dealings).flatMap Attempt.received).length
  countedRead : (g.counters.since start.counters).bytesRead = g.statistics.bytesRead
  timeouts : (g.counters.since start.counters).timeouts =
    UInt64.ofNat ((triedIn dealings).countP Attempt.timedOut)
  transportErrors : (g.counters.since start.counters).transportErrors =
    UInt64.ofNat ((triedIn dealings).countP Attempt.brokeOff)
  causes : (triedIn dealings).countP Attempt.timedOut +
    (triedIn dealings).countP Attempt.brokeOff ≤ (triedIn dealings).countP Attempt.failed
  /-- As long as the words do not wrap. -/
  countedCauses : (triedIn dealings).countP Attempt.failed < UInt64.size →
    (g.counters.since start.counters).timeouts.toNat +
      (g.counters.since start.counters).transportErrors.toNat ≤ g.statistics.failures.toNat
  lastWritten : g.statistics.lastBytesWritten =
    UInt64.ofNat (((triedIn dealings).getLast?.map Attempt.sent).getD []).length
  lastRead : g.statistics.lastBytesRead =
    UInt64.ofNat (((triedIn dealings).getLast?.map Attempt.received).getD []).length

/-- A failure has one cause. -/
private theorem countP_causes_le (tried : List Attempt) :
    tried.countP Attempt.timedOut + tried.countP Attempt.brokeOff ≤
      tried.countP Attempt.failed := by
  induction tried with
  | nil => exact Nat.le_refl 0
  | cons attempt more ih =>
    -- of the two causes an attempt has one at most, and none if it did not fail
    have hone : (if attempt.timedOut = true then 1 else 0) +
        (if attempt.brokeOff = true then 1 else 0) ≤
        if attempt.failed = true then 1 else 0 := by
      obtain ⟨command, calls, result⟩ := attempt
      cases result with
      | ok reply => exact Nat.le_refl 0
      | error cause =>
        cases cause <;> first | exact Nat.le_refl 1 | exact Nat.zero_le 1
    rw [List.countP_cons, List.countP_cons, List.countP_cons]
    omega

/-- A gateway before its first operation. The counters may have counted something before. -/
def opened (link : σ) (config : Channel.Config) (locks : Nat) (connected : Bool)
    (counters : Counters) : Gateway (Recorded σ) κ ω :=
  { Gateway.new ⟨link, []⟩ config locks connected with counters }

/-- What was added is the difference. -/
private theorem sub_of_eq_add {x y n : UInt64} (h : y = x + n) : y - x = n := by
  rw [h, UInt64.add_comm, UInt64.add_sub_cancel]

variable [Transport σ]

/-- What a gateway has booked since it was made is all that it counts. -/
private theorem accounts_of_booked {link : σ} {config : Channel.Config} {locks : Nat}
    {connected : Bool}
    {counters : Counters} {g : Gateway (Recorded σ) κ ω} {dealings : List Dealing}
    (hdeals : Deals (opened link config locks connected counters : Gateway _ κ ω).channel dealings
      g.channel)
    (h : Booked (opened link config locks connected counters : Gateway _ κ ω).books
      (triedIn dealings) g.books) :
    Accounts (opened link config locks connected counters) g dealings := by
  -- the counts of the gateway begin at zero, those of the process where they were
  have hcalls : g.channel.link.calls = dealings.flatMap Dealing.calls := hdeals.calls_eq
  have hmessages : g.statistics.messages = UInt64.ofNat (triedIn dealings).length :=
    h.messages.trans (UInt64.zero_add _)
  have hfailures : g.statistics.failures =
      UInt64.ofNat ((triedIn dealings).countP Attempt.failed) :=
    h.failures.trans (UInt64.zero_add _)
  have hread : g.statistics.bytesRead =
      UInt64.ofNat ((triedIn dealings).flatMap Attempt.received).length :=
    h.bytesRead.trans (UInt64.zero_add _)
  have htimeouts : (g.counters.since counters).timeouts =
      UInt64.ofNat ((triedIn dealings).countP Attempt.timedOut) := sub_of_eq_add h.timeouts
  have htransport : (g.counters.since counters).transportErrors =
      UInt64.ofNat ((triedIn dealings).countP Attempt.brokeOff) := sub_of_eq_add h.transportErrors
  have hcauses := countP_causes_le (triedIn dealings)
  have htoNat : ∀ n, n < UInt64.size → (UInt64.ofNat n).toNat = n :=
    fun _ => UInt64.toNat_ofNat_of_lt
  refine ⟨hdeals, hcalls, hmessages, hfailures, (sub_of_eq_add h.transactions).trans hmessages.symm,
    (sub_of_eq_add h.countedFailures).trans hfailures.symm, ?written,
    sub_of_eq_add h.countedWritten, hread, (sub_of_eq_add h.countedRead).trans hread.symm,
    htimeouts, htransport, hcauses, fun hsize => ?causes, ?lastWritten, ?lastRead⟩
  case written =>
    rw [hcalls, hdeals.commandData_eq]
    exact h.bytesWritten.trans (UInt64.zero_add _)
  case causes =>
    have hsum : ((g.counters.since counters).timeouts.toNat +
        (g.counters.since counters).transportErrors.toNat) ≤ g.statistics.failures.toNat := by
      -- the sum of the two is right as long as the number of failures fits the word
      rw [htimeouts, htransport, hfailures, htoNat _ hsize, htoNat _ (by omega),
        htoNat _ (by omega)]
      exact hcauses
    exact hsum
  case lastWritten =>
    refine h.lastWritten.trans ?_
    cases (triedIn dealings).getLast? <;> rfl
  case lastRead =>
    refine h.lastRead.trans ?_
    cases (triedIn dealings).getLast? <;> rfl

variable [Listener κ ω]

/-- **The accounts of a run.** A gateway is made over any transport, with a record of the calls on
    it, and nobody else counts. After any run of operations and scheduler cycles the statistics and
    the counters agree on how many exchanges were tried and how many failed. The statistics have the
    command bytes that went out, as the record tells them; the counters leave out those of failed
    exchanges. Both have the bytes of all replies. No failure is counted as silence and as a broken
    connection, and the last figures are those of the last exchange. -/
theorem run_accounts {link : σ} {config : Channel.Config} {locks : Nat} {connected : Bool}
    {counters : Counters} {g : Gateway (Recorded σ) κ ω}
    (h : Run (opened link config locks connected counters) g) :
    ∃ dealings, Accounts (opened link config locks connected counters) g dealings := by
  obtain ⟨deeds, hsteps⟩ := steps_of_run h
  obtain ⟨dealings, hdeals, hbooked⟩ := hsteps.booked
  exact ⟨dealings, accounts_of_booked hdeals hbooked⟩

/-- A gateway over an endpoint that was never dialled, with some transactions counted before. -/
def countingGateway : Gateway (Recorded Endpoint) ChangeLog Change :=
  opened { host := "pmac" } {} 0 true { transactions := 7, failures := 2 }

/-- Its command fails before it goes out, and connecting is no exchange. -/
theorem run_accounts_undialled : ∃ g : Gateway (Recorded Endpoint) ChangeLog Change,
    Run countingGateway g ∧ g.statistics.messages = 1 ∧ g.statistics.bytesWritten = 0 ∧
      g.counters.transactions = 8 ∧ g.counters.failures = 3 ∧ g.counters.transportErrors = 1 ∧
      ∃ dealings, Accounts countingGateway g dealings := by
  have hends : ∃ g, ended ((Operation.immediate "P1").run countingGateway) = some g ∧
      ∃ g', ended (Operation.checkConnection.run g) = some g' ∧ g'.statistics.messages = 1 ∧
        g'.statistics.bytesWritten = 0 ∧ g'.counters.transactions = 8 ∧
        g'.counters.failures = 3 ∧ g'.counters.transportErrors = 1 :=
    ⟨_, rfl, _, rfl, rfl, rfl, rfl, rfl, rfl⟩
  obtain ⟨g, hlost, g', hrefused, hmessages, hwritten, htransactions, hfailures, herrors⟩ := hends
  have hrun : Run countingGateway g' :=
    .operation .checkConnection (.operation (.immediate "P1") .start hlost) hrefused
  exact ⟨g', hrun, hmessages, hwritten, htransactions, hfailures, herrors, run_accounts hrun⟩

end PmacPoll.Gateway
