import PmacPoll.ChangeLog
import PmacPoll.Proofs.DeviceExchange
import PmacPoll.Proofs.LinkOrder

/-!
# Nothing of a lost session is read in a later one

When a session is lost, bytes may be left over at both ends: received and not yet read, half a
message to be skipped, half a frame, a reply that was never asked for. `withRemains` puts any such
bytes in the place of those that a gateway has. As long as there is no connection they are not
looked at, and connecting the transport anew drops them all.

Two gateways that differ in them alone are `Akin`, and they stay so, whatever they are exposed to:
each operation `Agrees` on them, until the transport is connected, when they become one and the
same. The main result is `observe_lostSession`.
-/

namespace PmacPoll.Gateway

open Running

variable {κ ω α β : Type}

/-! ### What is left over -/

/-- The bytes that a lost session leaves over. -/
structure Remains where
  /-- What the channel has received, and whether the rest of a message is to be skipped. -/
  inbox : Inbox := {}
  /-- What the device has received, and has to send. -/
  inbound : Bytes := []
  outbox : Bytes := []
  held : Bytes := []

/-- The gateway with these bytes left over, in place of its own. -/
def withRemains (g : Gateway Device κ ω) (r : Remains) : Gateway Device κ ω :=
  { g with channel := { g.channel with
      inbox := r.inbox
      link := { g.channel.link with inbound := r.inbound, outbox := r.outbox, held := r.held } } }

/-- The bytes that are left over. -/
def remains (g : Gateway Device κ ω) : Remains where
  inbox := g.channel.inbox
  inbound := g.channel.link.inbound
  outbox := g.channel.link.outbox
  held := g.channel.link.held

/-- A gateway has its own bytes left over. -/
private theorem withRemains_remains (g : Gateway Device κ ω) : g.withRemains g.remains = g := rfl

/-- Bytes that are put in the place of others leave nothing of these. -/
private theorem withRemains_withRemains (g : Gateway Device κ ω) (r r' : Remains) :
    (g.withRemains r).withRemains r' = g.withRemains r' := rfl

/-- Two gateways differ at most in what is left over, while there is no connection. -/
def Akin (g g' : Gateway Device κ ω) : Prop :=
  g' = g ∨ (g.linkState = .disconnected ∧ ∃ r, g' = g.withRemains r)

/-- A gateway is akin to itself. -/
theorem Akin.refl (g : Gateway Device κ ω) : Akin g g := Or.inl rfl

/-- Without a connection it does not matter for this what is left over. -/
private theorem akin_withRemains {g : Gateway Device κ ω} (h : g.linkState = .disconnected)
    (r : Remains) : Akin g (g.withRemains r) := Or.inr ⟨h, r, rfl⟩

/-! ### Operations that agree -/

/-- Two runs come to the same, and what they leave differs at most in what is left over. -/
structure SameRun (run run' : EStateM.Result (Stop GatewayError) (Gateway Device κ ω) α) :
    Prop where
  outcome : outcome run' = outcome run
  akin : Akin (finalState run) (finalState run')

/-- What is left over makes no difference to an operation. -/
def Agrees (x : Action Device κ ω α) : Prop :=
  ∀ ⦃g g' : Gateway Device κ ω⦄, Akin g g' → SameRun (x g) (x g')

/-- A run comes to the same as itself. -/
theorem SameRun.refl (run : EStateM.Result (Stop GatewayError) (Gateway Device κ ω) α) :
    SameRun run run := ⟨rfl, .refl _⟩

/-- Two runs that succeed with the same value come to the same. -/
theorem SameRun.ok {a : α} {g g' : Gateway Device κ ω} (h : Akin g g') :
    SameRun (.ok a g) (.ok a g') := ⟨rfl, h⟩

/-- So do two that stop for the same cause. -/
theorem SameRun.error {stop : Stop GatewayError} {g g' : Gateway Device κ ω} (h : Akin g g') :
    SameRun (.error stop g : EStateM.Result _ _ α) (.error stop g') := ⟨rfl, h⟩

/-- Two runs that come to the same both give the same value or stop for the same cause. -/
theorem SameRun.cases {run run' : EStateM.Result (Stop GatewayError) (Gateway Device κ ω) α}
    (h : SameRun run run') :
    (∃ a g g', run = .ok a g ∧ run' = .ok a g' ∧ Akin g g') ∨
      ∃ stop g g', run = .error stop g ∧ run' = .error stop g' ∧ Akin g g' := by
  obtain ⟨houtcome, hakin⟩ := h
  cases run with
  -- a value on one side and a stop on the other are different outcomes
  | ok a g =>
    cases run' with
    | ok a' g' =>
      obtain rfl := Except.ok.inj houtcome
      exact Or.inl ⟨_, g, g', rfl, rfl, hakin⟩
    | error stop g' => exact nomatch houtcome
  | error stop g =>
    cases run' with
    | ok a' g' => exact nomatch houtcome
    | error stop' g' =>
      obtain rfl := Except.error.inj houtcome
      exact Or.inr ⟨_, g, g', rfl, rfl, hakin⟩

/-- It is enough to look at gateways without a connection. -/
theorem agrees_of_disconnected {x : Action Device κ ω α}
    (h : ∀ (g : Gateway Device κ ω) (r : Remains), g.linkState = .disconnected →
      SameRun (x g) (x (g.withRemains r))) : Agrees x := by
  intro g g' hakin
  rcases hakin with rfl | ⟨hgone, r, rfl⟩
  · exact .refl _
  · exact h g r hgone

/-- A value does not depend on the state. -/
theorem agrees_pure (a : α) : Agrees (pure a : Action Device κ ω α) :=
  fun _ _ hakin => .ok hakin

/-- Nor does a failure. -/
theorem agrees_raise (cause : Option GatewayError) :
    Agrees (raise cause : Action Device κ ω Unit) := by
  intro g g' hakin
  cases cause with
  | none => exact .ok hakin
  | some e => exact .error hakin

/-- Operations that agree, one after another, agree. -/
theorem Agrees.bind {x : Action Device κ ω α} {f : α → Action Device κ ω β} (hx : Agrees x)
    (hf : ∀ a, Agrees (f a)) : Agrees (x >>= f) := by
  intro g g' hakin
  rw [bind_run, bind_run]
  rcases (hx hakin).cases with ⟨a, g₁, g₁', hrun, hrun', hakin₁⟩ |
    ⟨stop, g₁, g₁', hrun, hrun', hakin₁⟩
  · rw [hrun, hrun']
    exact hf a hakin₁
  · rw [hrun, hrun']
    exact .error hakin₁

/-- Catching a failure keeps this up, as the failure is the same on both sides. -/
theorem Agrees.attempt {x : Action Device κ ω α} (hx : Agrees x) :
    Agrees (Gateway.attempt x) := by
  intro g g' hakin
  unfold Gateway.attempt
  rcases (hx hakin).cases with ⟨a, g₁, g₁', hrun, hrun', hakin₁⟩ |
    ⟨stop, g₁, g₁', hrun, hrun', hakin₁⟩
  · rw [hrun, hrun']
    exact .ok hakin₁
  · rw [hrun, hrun']
    -- a failure becomes an answer, and a run that is still going on has none
    cases stop with
    | failed cause => exact .ok hakin₁
    | unfinished => exact .error hakin₁

/-- A change of the state that neither looks at what is left over nor makes a connection. -/
theorem agrees_change {f : Gateway Device κ ω → Gateway Device κ ω} (a : α)
    (hremains : ∀ g r, ∃ r', f (g.withRemains r) = (f g).withRemains r')
    (hlink : ∀ g, (f g).linkState = g.linkState) :
    Agrees (do modify f; pure a : Action Device κ ω α) := by
  apply agrees_of_disconnected
  intro g r hgone
  obtain ⟨r', hr'⟩ := hremains g r
  show SameRun (.ok a (f g)) (.ok a (f (g.withRemains r)))
  rw [hr']
  exact .ok (akin_withRemains ((hlink g).trans hgone) r')

/-! ### Commands and refreshes -/

/-- A command fails without a connection, before anything is read. -/
theorem agrees_transact (command : String) :
    Agrees (transact command : Action Device κ ω Reply) := by
  apply agrees_of_disconnected
  intro g r hgone
  have hrefused : ∀ g : Gateway Device κ ω, g.linkState = .disconnected →
      transact command g = .error (.failed .disconnected) g := by
    intro g hgone
    rw [transact_eq, if_neg (by rw [isConnected, hgone]; decide)]
  rw [hrefused g hgone, hrefused (g.withRemains r) hgone]
  exact .error (akin_withRemains hgone r)

/-- Whether a reply is an error is told by the reply, so single commands agree. -/
theorem agrees_immediate (command : String) :
    Agrees (immediate command : Action Device κ ω String) := by
  apply (agrees_transact command).bind
  intro reply
  dsimp only
  split
  · exact agrees_change _ (fun g r => ⟨r, rfl⟩) fun g => rfl
  · exact agrees_pure _

variable [Listener κ ω]

/-- Without a connection a refresh fails, unless it has nothing to ask for. -/
private theorem refresh_disconnected {g : Gateway Device κ ω} (hgone : g.linkState = .disconnected)
    (tier : Tier) :
    refresh tier g =
      if (g.table tier).commands = [] then .ok () (g.timed (Transport.now g.channel.link))
      else .error (.failed .disconnected) (g.timed (Transport.now g.channel.link)) := by
  rw [refresh_eq]
  split
  · rfl
  · next hsome =>
    have hconnected : g.isConnected = false := by
      rw [isConnected, hgone]
      rfl
    rw [transactAll_disconnected hconnected hsome]

/-- A refresh fails without a connection, and its time is what changes. -/
theorem agrees_refresh (tier : Tier) : Agrees (refresh tier : Action Device κ ω Unit) := by
  apply agrees_of_disconnected
  intro g r hgone
  have hcommands : ((g.withRemains r).table tier).commands = (g.table tier).commands := rfl
  -- the clock counts frames, whatever bytes are on the way
  have htimed : (g.withRemains r).timed (Transport.now (g.withRemains r).channel.link) =
      (g.timed (Transport.now g.channel.link)).withRemains r := rfl
  rw [refresh_disconnected hgone, refresh_disconnected (g := g.withRemains r) hgone, hcommands,
    htimed]
  have hakin := akin_withRemains (g := g.timed (Transport.now g.channel.link)) hgone r
  split
  · exact .ok hakin
  · exact .error hakin

omit [Listener κ ω] in
/-- Whether a refresh is left out does not depend on bytes. -/
private theorem suppresses_withRemains (g : Gateway Device κ ω) (r : Remains) (tier : Tier) :
    (g.withRemains r).suppresses tier =
      ((g.suppresses tier).1, (g.suppresses tier).2.withRemains r) := by
  unfold suppresses withRemains
  split
  · cases tier <;> rfl
  · rfl

/-- A refresh that is left out is counted on both sides. -/
theorem agrees_refreshUnlessSuppressed (tier : Tier) :
    Agrees (refreshUnlessSuppressed tier : Action Device κ ω Unit) := by
  apply agrees_of_disconnected
  intro g r hgone
  have hconsidered : (g.suppresses tier).2.linkState = .disconnected := by
    obtain ⟨count, h⟩ := snd_suppresses tier g
    rw [h]
    exact hgone
  -- both sides decide alike, as neither looks at bytes for it
  rw [refreshUnlessSuppressed_eq, refreshUnlessSuppressed_eq, suppresses_withRemains]
  dsimp only
  split
  · exact .ok (akin_withRemains (g := { (g.suppresses tier).2 with
      counters := (g.suppresses tier).2.counters.suppressedUpdate }) hconsidered r)
  · exact agrees_refresh tier (akin_withRemains hconsidered r)

/-- The outside locks are part of the state that is the same on both sides. -/
theorem agrees_updateFrom (taken : Nat) (tier : Tier) :
    Agrees (updateFrom taken tier : Action Device κ ω Unit) := by
  -- what remains is no part of the locks
  have hunlocked : ∀ {g g' : Gateway Device κ ω}, Akin g g' → Akin g.unlocked g'.unlocked := by
    intro g g' hakin
    rcases hakin with rfl | ⟨hgone, r, rfl⟩
    · exact .refl _
    · exact akin_withRemains (g := g.unlocked) hgone r
  apply agrees_of_disconnected
  intro g r hgone
  have hlocked : Akin (g.locked taken) ((g.withRemains r).locked taken) :=
    akin_withRemains (g := g.locked taken) hgone r
  have hlocks : (g.withRemains r).locks = g.locks := rfl
  rw [updateFrom_eq, updateFrom_eq, hlocks]
  split
  · rcases (agrees_refreshUnlessSuppressed tier hlocked).cases with
      ⟨u, g₁, g₁', hrun, hrun', hakin⟩ | ⟨stop, g₁, g₁', hrun, hrun', hakin⟩
    · rw [hrun, hrun']
      -- the locks are released by both, whatever the refresh came to
      exact .ok (hunlocked hakin)
    · rw [hrun, hrun']
      cases stop with
      | failed cause => exact .error (hunlocked hakin)
      | unfinished => exact .error hakin
  · exact .error hlocked

/-- Tiers that are refreshed one after another agree on each, and so on the first failure. -/
theorem agrees_updateEach (tiers : List Tier) :
    Agrees (updateEach tiers : Action Device κ ω (Option GatewayError)) := by
  induction tiers with
  | nil => exact agrees_pure none
  | cons tier more ih =>
    apply (agrees_updateFrom 0 tier).attempt.bind
    intro result
    apply ih.bind
    intro later
    -- the first failure is kept, and it is the same in both runs
    cases result with
    | ok u => exact agrees_pure later
    | error cause => exact agrees_pure (some cause)

/-- Polling all tiers agrees. -/
theorem agrees_pollAll : Agrees (pollAll : Action Device κ ω Unit) :=
  (agrees_updateEach Tier.all).bind fun cause => agrees_raise cause

/-! ### Connecting anew -/

omit [Listener κ ω] in
/-- A device that refuses leaves what it has, and the channel forgets what it has received. -/
private theorem reconnect_refused {c : Channel Device} (h : c.link.refusesReconnect = true) :
    Channel.reconnect c =
      .error (.failed (.connection "reconnect refused")) { c with inbox := {} } := by
  have hdial : (Transport.reconnect : Link Device Unit) c.link =
      .error (.connection "reconnect refused") c.link := if_pos h
  simp only [Channel.reconnect, bind_run, modify_run, Channel.onLink, hdial]

omit [Listener κ ω] in
/-- A device that can be connected to drops what it has received and what it has to send. -/
private theorem reconnect_accepted {c : Channel Device} (h : c.link.refusesReconnect = false) :
    Channel.reconnect c =
      .ok () { c with
        inbox := {}
        link := { c.link with
          connected := true, reconnects := c.link.reconnects + 1
          inbound := [], outbox := [], held := [] } } := by
  have hdial : (Transport.reconnect : Link Device Unit) c.link = .ok () { c.link with
      connected := true, reconnects := c.link.reconnects + 1
      inbound := [], outbox := [], held := [] } := if_neg (by rw [h]; decide)
  simp only [Channel.reconnect, bind_run, modify_run, Channel.onLink, hdial]

omit [Listener κ ω] in
/-- **Connecting drops what is left over.** If the device refuses, the two gateways still differ in
    that alone; if it does not, they become one and the same before the first byte is sent. -/
theorem agrees_ensureConnected : Agrees (ensureConnected : Action Device κ ω Bool) := by
  apply agrees_of_disconnected
  intro g r hgone
  have hconnected : ¬ g.isConnected = true := by
    rw [isConnected, hgone]
    decide
  -- a device that refuses leaves both without a connection, one that accepts clears what remains
  cases hrefuses : g.channel.link.refusesReconnect with
  | true =>
    rw [ensureConnected_eq, ensureConnected_eq, if_neg hconnected,
      if_neg (c := (g.withRemains r).isConnected = true) hconnected, reconnect_refused hrefuses,
      reconnect_refused (c := (g.withRemains r).channel) hrefuses]
    exact .ok (akin_withRemains (g := { g with
      linkState := .disconnected, channel := { g.channel with inbox := {} } }) rfl
      { r with inbox := {} })
  | false =>
    have hsame : ensureConnected (g.withRemains r) = ensureConnected g := by
      rw [ensureConnected_eq, ensureConnected_eq, if_neg hconnected,
        if_neg (c := (g.withRemains r).isConnected = true) hconnected, reconnect_accepted hrefuses,
        reconnect_accepted (c := (g.withRemains r).channel) hrefuses]
      rfl
    rw [hsame]
    exact .refl _

omit [Listener κ ω] in
/-- Telling of the connection looks at the flag only where the connection stands, and there the
    gateways are one and the same. -/
theorem agrees_status : Agrees (status : Action Device κ ω ConnectionStatus) := by
  intro g g' hakin
  rw [status_eq, status_eq]
  rcases (agrees_ensureConnected hakin).cases with
    ⟨stands, g₁, g₁', hrun, hrun', hakin₁⟩ | ⟨stop, g₁, g₁', hrun, hrun', hakin₁⟩
  · rw [hrun, hrun']
    cases stands with
    | true =>
      -- without a connection only the gateways differ, and not what is reported
      rcases hakin₁ with rfl | ⟨hgone, r, rfl⟩
      · exact .refl _
      · exact .ok (akin_withRemains (g := { g₁ with newConnection := false }) hgone r)
    | false => exact .ok hakin₁
  · rw [hrun, hrun']
    exact .error hakin₁

/-! ### Runs -/

/-- What is done to a device from the outside. -/
inductive DeviceChange where
  | setVariable (name value : String)
  | pushReply (reply : Option Bytes)
  | setResponder (answer : List String → Option Bytes)
  | setImmediateLimit (limit : Option Nat)
  | inject (bytes : Bytes)
  | disconnect (refuse : Bool)
  | allowReconnect
  | clearHistory

/-- Makes a change to a device. -/
def DeviceChange.apply (d : Device) : DeviceChange → Device
  | setVariable name value => d.setVariable name value
  | pushReply reply => d.pushReply reply
  | setResponder answer => d.setResponder answer
  | setImmediateLimit limit => { d with immediateLimit := limit }
  | inject bytes => d.inject bytes
  | disconnect refuse => d.disconnect refuse
  | allowReconnect => d.allowReconnect
  | clearHistory => d.clearHistory

/-- What a gateway over a device is exposed to. -/
inductive Stimulus (κ : Type) where
  | operation (op : Operation κ)
  | device (change : DeviceChange)
  /-- Somebody takes or releases an outside lock. -/
  | locks (held : List Bool)

/-- What comes of it. -/
def Stimulus.respond : Stimulus κ → Action Device κ ω Answer
  | .operation op => op.run
  | .device change => do
    modify fun g =>
      { g with channel := { g.channel with link := change.apply g.channel.link } }
    pure .done
  | .locks held => do
    modify fun g => { g with locks := held }
    pure .done

/-- Everything that can be seen: the answers, and the gateway after each of them, but for what is
    left over on its link. -/
def observe : List (Stimulus κ) → Gateway Device κ ω →
    List (Except (Stop GatewayError) Answer × Gateway Device κ ω)
  | [], _ => []
  | stimulus :: more, g =>
    let run := stimulus.respond g
    (outcome run, (finalState run).withRemains {}) :: observe more (finalState run)

/-- The gateway in the end. -/
def after (stimuli : List (Stimulus κ)) (g : Gateway Device κ ω) : Gateway Device κ ω :=
  stimuli.foldl (fun g stimulus => finalState (stimulus.respond g)) g

/-- Each of the operations agrees. -/
theorem agrees_run (op : Operation κ) : Agrees (op.run : Action Device κ ω Answer) := by
  -- most change the state in a way that has nothing to do with bytes, or run what agrees
  cases op with
  | addVariable tier name =>
    exact agrees_change _ (fun g r => ⟨r, rfl⟩) fun g => rfl
  | addMonitored tier list =>
    apply agrees_of_disconnected
    intro g r hgone
    exact .ok (akin_withRemains (g := (g.addMonitored tier list).2) hgone r)
  | removeVariable tier name =>
    apply agrees_of_disconnected
    intro g r hgone
    exact .ok (akin_withRemains (g := (g.removeVariable tier name).2) hgone r)
  | register listener tier =>
    exact agrees_change _ (fun g r => ⟨r, rfl⟩) fun g => rfl
  | immediate command => exact (agrees_immediate command).bind fun _ => agrees_pure _
  | update taken tier => exact (agrees_updateFrom taken tier).bind fun _ => agrees_pure _
  | pollAll => exact agrees_pollAll.bind fun _ => agrees_pure _
  | checkConnection => exact agrees_ensureConnected.bind fun _ => agrees_pure _
  | status => exact agrees_status.bind fun _ => agrees_pure _
  | suppress =>
    exact agrees_change _ (fun g r => ⟨r, rfl⟩) fun g => rfl
  | reinstate =>
    exact agrees_change _ (fun g r => ⟨r, rfl⟩) fun g => rfl

/-- So does all that is done from outside. -/
theorem agrees_respond (stimulus : Stimulus κ) :
    Agrees (stimulus.respond : Action Device κ ω Answer) := by
  cases stimulus with
  | operation op => exact agrees_run op
  | device change =>
    refine agrees_change _ (fun g r => ?_) fun g => rfl
    -- bytes that are put in front of the reader add to those that are left over
    cases change with
    | inject bytes => exact ⟨{ r with outbox := r.outbox ++ bytes }, rfl⟩
    | _ => exact ⟨r, rfl⟩
  | locks held =>
    exact agrees_change _ (fun g r => ⟨r, rfl⟩) fun g => rfl

omit [Listener κ ω] in
/-- Without what is left over, gateways that are akin are the same. -/
theorem Akin.withRemains {g g' : Gateway Device κ ω} (h : Akin g g') :
    g'.withRemains {} = g.withRemains {} := by
  rcases h with rfl | ⟨-, r, rfl⟩
  · rfl
  · exact withRemains_withRemains g r {}

/-- The same can be seen of gateways that are akin, one stimulus after another. -/
private theorem observe_of_akin (stimuli : List (Stimulus κ)) {g g' : Gateway Device κ ω}
    (h : Akin g g') :
    observe stimuli g' = observe stimuli g ∧ Akin (after stimuli g) (after stimuli g') := by
  -- on the stimuli; that the gateways stay akin is what carries it
  induction stimuli generalizing g g' with
  | nil => exact ⟨rfl, h⟩
  | cons stimulus more ih =>
    have hrun := agrees_respond stimulus h
    obtain ⟨hlater, hafter⟩ := ih hrun.akin
    refine ⟨?_, hafter⟩
    rw [observe, observe, hrun.outcome, hrun.akin.withRemains, hlater]

/-- **Nothing of a lost session is read in a later one.** Of two gateways without a connection that
    differ at most in what is left over at the two ends of the link, whatever they are exposed to,
    the same can be seen; and once the connection stands there is no difference at all. -/
theorem observe_lostSession {g g' : Gateway Device κ ω} (hgone : g.linkState = .disconnected)
    (hsame : g'.withRemains {} = g.withRemains {}) (stimuli : List (Stimulus κ)) :
    observe stimuli g' = observe stimuli g ∧
      ((after stimuli g).linkState = .connected → after stimuli g' = after stimuli g) := by
  -- what is left over on the side of `g'` may be anything
  have hakin : Akin g g' := by
    have hremains : g' = g.withRemains g'.remains := by
      calc g' = g'.withRemains g'.remains := (withRemains_remains g').symm
        _ = (g'.withRemains {}).withRemains g'.remains :=
          (withRemains_withRemains g' {} g'.remains).symm
        _ = (g.withRemains {}).withRemains g'.remains := by rw [hsame]
        _ = g.withRemains g'.remains := withRemains_withRemains g {} g'.remains
    exact Or.inr ⟨hgone, g'.remains, hremains⟩
  obtain ⟨hobserve, hafter⟩ := observe_of_akin stimuli hakin
  refine ⟨hobserve, fun hconnected => ?_⟩
  rcases hafter with heq | ⟨hgone', -⟩
  · exact heq
  · exact nomatch hgone'.symm.trans hconnected

/-- A gateway that is yet to connect, to a device that answers the probe and one command. -/
def freshGateway : Gateway Device ChangeLog Change :=
  .new { scripted := [some [Control.ack],
    some (Utf8.encode "5" ++ [Control.carriageReturn, Control.ack])] } {} 0 false

/-- The same with replies to other commands left over, and one of them cut off. -/
def soiledGateway : Gateway Device ChangeLog Change :=
  freshGateway.withRemains {
    inbox := ⟨Utf8.encode "7" ++ [Control.carriageReturn], some true⟩
    inbound := [Frame.download]
    outbox := Utf8.encode "8" ++ [Control.carriageReturn, Control.ack]
    held := Utf8.encode "9" }

/-- Neither `7` nor `8` nor `9` is read: the command is answered by `5`, as it is without them, and
    once the connection stands the two gateways are the same. -/
theorem observe_lostSession_soiled :
    let stimuli := [.operation .checkConnection, .operation (.immediate "P1")]
    freshGateway.linkState = .disconnected ∧
      soiledGateway.withRemains {} = freshGateway.withRemains {} ∧
      observe stimuli soiledGateway = observe stimuli freshGateway ∧
      (observe stimuli soiledGateway).map (·.1) = [.ok (.connected true), .ok (.text "5\r")] ∧
      after stimuli soiledGateway = after stimuli freshGateway := by
  intro stimuli
  have hremains : soiledGateway.withRemains {} = freshGateway.withRemains {} := rfl
  obtain ⟨hsame, hafter⟩ := observe_lostSession rfl hremains stimuli
  -- The probe of the fresh gateway gets its reply,
  obtain ⟨c₁, hprobe, hconfig, hopen, halike⟩ := @Device.writeRead_device
    { freshGateway.channel with link := { freshGateway.channel.link with reconnects := 1 } }
    rfl ⟨rfl, rfl⟩ (Utf8.encode "") _ _ rfl (by decide) (by decide)
  obtain ⟨g₁, hcheck, rfl, hconnected, -⟩ := ensureConnected_of_answered (g := freshGateway)
    (by decide) (reconnect_accepted rfl) hprobe
  -- and so does the command after it.
  have hanswer : g₁.channel.link.answer (Device.heard (Utf8.encode "P1")) =
      (some (Utf8.encode "5" ++ [Control.carriageReturn, Control.ack]),
        { g₁.channel.link with scripted := [] }) := by
    rw [Device.answer, halike.scripted]
  obtain ⟨c₂, hread, -⟩ := Device.writeRead_device (by rw [hconfig]; rfl) hopen hanswer (by decide)
    (Nat.le_trans (List.length_take_le' ..) (by decide))
  obtain ⟨g₂, hcommand, hstands⟩ : ∃ g₂, immediate "P1" g₁ = .ok "5\r" g₂ ∧
      g₂.linkState = .connected := by
    rw [hconfig] at hread
    simp only [immediate, bind_run, transact_of_answered hconnected hread]
    exact ⟨_, rfl, (isConnected_iff g₁).mp hconnected⟩
  have hfirst : (Stimulus.operation .checkConnection : Stimulus ChangeLog).respond freshGateway =
      .ok (.connected true) g₁ := by
    simp only [Stimulus.respond, Operation.run, checkConnection, bind_run, hcheck, pure_run]
  have hsecond : (Stimulus.operation (.immediate "P1") : Stimulus ChangeLog).respond g₁ =
      .ok (.text "5\r") g₂ := by
    simp only [Stimulus.respond, Operation.run, bind_run, hcommand, pure_run]
  refine ⟨rfl, hremains, hsame, ?_, hafter ?_⟩
  · rw [hsame]
    simp only [stimuli, observe, hfirst, finalState, hsecond]
    rfl
  · simp only [stimuli, after, List.foldl, hfirst, finalState, hsecond]
    exact hstands

end PmacPoll.Gateway
