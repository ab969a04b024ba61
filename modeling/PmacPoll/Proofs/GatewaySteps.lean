import PmacPoll.Proofs.CycleSweep
import PmacPoll.Proofs.GatewayRefresh

/-!
# The steps of a gateway

`Step` says once what a gateway can do: the changes of its state that no call on the link is needed
for, an exchange on a connection that stands, and an attempt to connect. Each step is labelled with
what it does on the link. Every operation is made of such steps, and so is a cycle of the
scheduler: `Performs`. What all steps keep is kept by every operation.

Few operations connect the transport anew or tell of the session. All others are `Quiet`.
-/

namespace PmacPoll.Gateway

open Running

variable {σ κ ω α β : Type}

/-! ### Endings -/

/-- The gateway that an operation ends with, unless it waits for somebody. -/
def ended : EStateM.Result (Stop GatewayError) (Gateway σ κ ω) α → Option (Gateway σ κ ω)
  | .ok _ g => some g
  | .error (.failed _) g => some g
  | .error .unfinished _ => none

/-- One thing done after another ends either in the second or, by a failure, in the first. -/
private theorem ended_bind {x : Action σ κ ω α} {f : α → Action σ κ ω β} {g g' : Gateway σ κ ω}
    (h : ended ((x >>= f) g) = some g') :
    (∃ a g₁, x g = .ok a g₁ ∧ ended (f a g₁) = some g') ∨
      ended (x g) = some g' := by
  rw [bind_run] at h
  cases hx : x g with
  | ok a g₁ => rw [hx] at h; exact Or.inl ⟨a, g₁, rfl, h⟩
  | error stop g₁ =>
    rw [hx] at h
    cases stop with
    | failed cause => exact Or.inr h
    | unfinished => exact nomatch h

/-- What succeeds has come to an end. -/
theorem ended_of_ok {x : Action σ κ ω α} {g g' : Gateway σ κ ω} {a : α} (h : x g = .ok a g') :
    ended (x g) = some g' := by
  rw [h]
  rfl

/-- What fails has come to an end. -/
private theorem ended_of_failed {x : Action σ κ ω α} {g g' : Gateway σ κ ω} {e : GatewayError}
    (h : x g = .error (.failed e) g') : ended (x g) = some g' := by
  rw [h]
  rfl

/-- A failure that is made a value ends as it did. -/
private theorem ended_attempt (x : Action σ κ ω α) (g : Gateway σ κ ω) :
    ended (attempt x g) = ended (x g) := by
  unfold attempt
  cases x g with
  | ok a g₁ => rfl
  | error stop g₁ => cases stop <;> rfl

/-- To pass on what an operation comes to is to end as it did. -/
theorem ended_bind_pure (x : Action σ κ ω α) (f : α → β) (g : Gateway σ κ ω) :
    ended ((x >>= fun a => pure (f a)) g) = ended (x g) := by
  rw [bind_run]
  cases x g with
  | ok a g₁ => rfl
  | error stop g₁ => cases stop <;> rfl

/-! ### Steps -/

/-- What a gateway does on its link, and whether that succeeds. -/
inductive Deed where
  /-- A command is handed to the channel, and there is a reply to it or not. -/
  | exchange (command : String) (replied : Bool)
  /-- The transport is connected anew, or is not. -/
  | reconnect (ok : Bool)
  deriving DecidableEq, Repr

variable [Transport σ] [Listener κ ω]

/-- One step of an operation, with what it does on the link. -/
inductive Step : Gateway σ κ ω → List Deed → Gateway σ κ ω → Prop where
  | addVariables {g} (tier : Tier) (names : List String) : Step g [] (g.addVariables tier names)
  | removeVariable {g} (tier : Tier) (name : String) : Step g [] (g.removeVariable tier name).2
  | register {g} (listener : κ) (tier : Tier) : Step g [] (g.register listener tier)
  | suppress {g} : Step g [] g.suppress
  | reinstate {g} : Step g [] g.reinstate
  /-- It is asked whether a refresh is suppressed. -/
  | considered {g} (tier : Tier) : Step g [] (g.suppresses tier).2
  /-- A refresh is left out. -/
  | leftOut {g} : Step g [] { g with counters := g.counters.suppressedUpdate }
  /-- A reply to a single command reports an error. -/
  | reported {g} : Step g [] { g with counters := g.counters.deviceError }
  /-- The session is told of. -/
  | told {g} : Step g [] { g with newConnection := false }
  /-- Outside locks are taken or released. -/
  | locks {g} (locks : List Bool) : Step g [] { g with locks }
  /-- A refresh ends without being completed. -/
  | timed {g} (started : Nat) : Step g [] (g.timed started)
  /-- A refresh has the replies to all its commands. -/
  | completed {g} {tier : Tier} (started : Nat) {replies : List (String × Reply)} :
      replies.map Prod.fst = (g.table tier).commands →
      Step g [] (g.completed tier started replies)
  /-- A command gets its reply on a connection that stands. -/
  | replied {g g'} {command : String} {reply : Reply} :
      g.linkState = .connected → exchange command g = .ok reply g' →
      Step g [.exchange command true] g'
  /-- A command gets no reply on a connection that stands, which is given up. -/
  | lost {g g'} {command : String} {cause : GatewayError} :
      g.linkState = .connected → exchange command g = .error (.failed cause) g' →
      Step g [.exchange command false] g'.loseConnection
  /-- The transport is not connected. -/
  | refused {g} {cause : LinkError} {channel : Channel σ} :
      g.isConnected = false → Channel.reconnect g.channel = .error (.failed cause) channel →
      Step g [.reconnect false] { g with linkState := .disconnected, channel }
  /-- The transport is connected, and the controller answers. -/
  | proved {g g'} {channel : Channel σ} {reply : Reply} :
      g.isConnected = false → Channel.reconnect g.channel = .ok () channel →
      exchange "" { g with linkState := .connecting, channel } = .ok reply g' →
      Step g [.reconnect true, .exchange "" true] g'.beginSession
  /-- The transport is connected, but the controller does not answer. -/
  | unproved {g g'} {channel : Channel σ} {cause : GatewayError} :
      g.isConnected = false → Channel.reconnect g.channel = .ok () channel →
      exchange "" { g with linkState := .connecting, channel } = .error (.failed cause) g' →
      Step g [.reconnect true, .exchange "" false] { g' with linkState := .disconnected }

/-- Some steps, one after another. -/
inductive Steps : Gateway σ κ ω → List Deed → Gateway σ κ ω → Prop where
  | refl (g : Gateway σ κ ω) : Steps g [] g
  | head {g g₁ g₂ : Gateway σ κ ω} {deeds later : List Deed} :
      Step g deeds g₁ → Steps g₁ later g₂ → Steps g (deeds ++ later) g₂

variable {g g₁ g₂ : Gateway σ κ ω} {deeds later : List Deed}

/-- A step is a run of one step. -/
theorem Step.steps (h : Step g deeds g₁) : Steps g deeds g₁ := by
  rw [← List.append_nil deeds]
  exact .head h (.refl g₁)

/-- Runs of steps are put together with their deeds. -/
theorem Steps.trans (h : Steps g deeds g₁) (h' : Steps g₁ later g₂) :
    Steps g (deeds ++ later) g₂ := by
  induction h with
  | refl => exact h'
  | head hstep _ ih =>
    rw [List.append_assoc]
    exact .head hstep (ih h')

/-- Some steps that neither connect the transport anew nor tell of the session. -/
structure Quiet (g : Gateway σ κ ω) (deeds : List Deed) (g' : Gateway σ κ ω) : Prop where
  steps : Steps g deeds g'
  undialled : ∀ ok, .reconnect ok ∉ deeds
  untold : g.newConnection = true → g'.newConnection = true

/-- Doing nothing is quiet. -/
theorem Quiet.refl (g : Gateway σ κ ω) : Quiet g [] g :=
  ⟨.refl g, fun _ => List.not_mem_nil, id⟩

/-- What is done quietly one after another is done quietly. -/
theorem Quiet.trans (h : Quiet g deeds g₁) (h' : Quiet g₁ later g₂) :
    Quiet g (deeds ++ later) g₂ where
  steps := h.steps.trans h'.steps
  undialled ok hmem := (List.mem_append.mp hmem).elim (h.undialled ok) (h'.undialled ok)
  untold := h'.untold ∘ h.untold

/-- A step without a call on the link, which leaves it as it was whether the session is told of. -/
theorem Step.quiet (h : Step g [] g₁) (hsame : g₁.newConnection = g.newConnection) :
    Quiet g [] g₁ where
  steps := h.steps
  undialled _ := List.not_mem_nil
  untold := hsame.trans

/-! ### Operations are made of steps -/

/-- However an operation ends, some steps lead there. -/
def Performs (x : Action σ κ ω α) : Prop :=
  ∀ ⦃g g' : Gateway σ κ ω⦄, ended (x g) = some g' → ∃ deeds, Steps g deeds g'

/-- However an operation ends, some quiet steps lead there. -/
def IsQuiet (x : Action σ κ ω α) : Prop :=
  ∀ ⦃g g' : Gateway σ κ ω⦄, ended (x g) = some g' → ∃ deeds, Quiet g deeds g'

/-- What is quiet consists of steps. -/
theorem IsQuiet.performs {x : Action σ κ ω α} (hx : IsQuiet x) : Performs x := by
  intro g g' h
  obtain ⟨deeds, hdeeds⟩ := hx h
  exact ⟨deeds, hdeeds.steps⟩

/-- Quiet operations make a quiet operation. -/
theorem IsQuiet.bind {x : Action σ κ ω α} {f : α → Action σ κ ω β} (hx : IsQuiet x)
    (hf : ∀ a, IsQuiet (f a)) : IsQuiet (x >>= f) := by
  intro g g' h
  rcases ended_bind h with ⟨a, g₁, hok, hend⟩ | hend
  · obtain ⟨deeds, hdeeds⟩ := hx (ended_of_ok hok)
    obtain ⟨later, hlater⟩ := hf a hend
    exact ⟨_, hdeeds.trans hlater⟩
  · exact hx hend

/-- An operation whose failure is caught is as quiet as it is. -/
theorem IsQuiet.attempt {x : Action σ κ ω α} (hx : IsQuiet x) : IsQuiet (Gateway.attempt x) := by
  intro g g' h
  rw [ended_attempt] at h
  exact hx h

/-- Giving a value does nothing. -/
theorem quiet_pure (a : α) : IsQuiet (pure a : Action σ κ ω α) := by
  intro g g' h
  obtain rfl := Option.some.inj h
  exact ⟨[], .refl g⟩

/-- Failing does nothing to the state. -/
theorem quiet_raise (cause : Option GatewayError) :
    IsQuiet (raise cause : Action σ κ ω Unit) := by
  intro g g' h
  cases cause <;> (obtain rfl := Option.some.inj h; exact ⟨[], .refl g⟩)

/-- A change that is a step. -/
theorem quiet_modify {f : Gateway σ κ ω → Gateway σ κ ω} (hf : ∀ g, Step g [] (f g))
    (hsame : ∀ g, (f g).newConnection = g.newConnection) :
    IsQuiet (modify f : Action σ κ ω PUnit) := by
  intro g g' h
  obtain rfl := Option.some.inj h
  exact ⟨[], (hf g).quiet (hsame g)⟩

/-- A command is one exchange, which is made on a connection that stands or not at all. -/
theorem quiet_transact (command : String) :
    IsQuiet (transact command : Action σ κ ω Reply) := by
  intro g g' h
  rw [transact_eq] at h
  split at h
  · next hconnected =>
    rw [isConnected_iff] at hconnected
    -- the command is exchanged, and the connection is kept or lost with that
    cases hexchange : exchange command g with
    | ok reply g₁ =>
      rw [hexchange] at h
      obtain rfl := Option.some.inj h
      refine ⟨_, (Step.replied hconnected hexchange).steps, by simp, ?_⟩
      obtain ⟨x, channel, -, -, rfl⟩ := exchange_ok hexchange
      exact id
    | error stop g₁ =>
      rw [hexchange] at h
      -- only a connection that never answers has no end
      cases stop with
      | unfinished => exact nomatch h
      | failed cause =>
        obtain rfl := Option.some.inj h
        exact ⟨_, (Step.lost hconnected hexchange).steps, by simp, fun _ => rfl⟩
  · obtain rfl := Option.some.inj h
    exact ⟨[], .refl g⟩

/-- The commands of a refresh are as many exchanges. -/
theorem quiet_transactAll (commands : List String) :
    IsQuiet (transactAll commands : Action σ κ ω (List (String × Reply))) := by
  induction commands with
  | nil => exact quiet_pure []
  | cons command more ih =>
    exact (quiet_transact command).bind fun reply =>
      ih.bind fun replies => quiet_pure ((command, reply) :: replies)

/-- A refresh is quiet: it exchanges its commands and stores what came of them. -/
theorem quiet_refresh (tier : Tier) : IsQuiet (refresh tier : Action σ κ ω Unit) := by
  intro g g' h
  rw [refresh_eq] at h
  split at h
  · -- without a command there is only the time that is taken
    obtain rfl := Option.some.inj h
    exact ⟨_, (Step.timed _).quiet rfl⟩
  · cases hrun : transactAll (g.table tier).commands g with
    | ok replies g₁ =>
      obtain ⟨deeds, hdeeds⟩ := quiet_transactAll _ (ended_of_ok hrun)
      -- an exchange changes no table, so the replies are those to the commands that are stored
      have hdata := transactAll_sameData (g.table tier).commands g
      rw [hrun] at hdata
      have htiers : g₁.tiers = g.tiers := hdata.tiers
      have hcommands : replies.map Prod.fst = (g₁.table tier).commands := by
        rw [(transactAll_ok hrun).1, table, table, htiers]
      have hcompleted := hdeeds.trans
        ((Step.completed (Transport.now g.channel.link) hcommands).quiet rfl)
      simp only [hrun, complete_eq] at h
      split at h <;> (obtain rfl := Option.some.inj h; exact ⟨_, hcompleted⟩)
    | error stop g₁ =>
      rw [hrun] at h
      cases stop with
      | unfinished => cases h
      | failed cause =>
        -- the commands before the failed one did get their replies
        obtain ⟨deeds, hdeeds⟩ := quiet_transactAll _ (ended_of_failed hrun)
        obtain rfl := Option.some.inj h
        exact ⟨_, hdeeds.trans ((Step.timed _).quiet rfl)⟩

/-- A refresh that is left out is quiet too: it is counted and no more. -/
theorem quiet_refreshUnlessSuppressed (tier : Tier) :
    IsQuiet (refreshUnlessSuppressed tier : Action σ κ ω Unit) := by
  intro g g' h
  -- the question is asked before anything else
  have hconsidered : Quiet g [] (g.suppresses tier).2 := by
    obtain ⟨count, hcount⟩ := snd_suppresses tier g
    exact (Step.considered tier).quiet (by rw [hcount])
  rw [refreshUnlessSuppressed_eq] at h
  split at h
  · obtain rfl := Option.some.inj h
    exact ⟨_, hconsidered.trans (Step.leftOut.quiet rfl)⟩
  · obtain ⟨deeds, hdeeds⟩ := quiet_refresh tier h
    exact ⟨_, hconsidered.trans hdeeds⟩

/-- The outside locks make no difference to what is done on the link. -/
theorem quiet_updateFrom (taken : Nat) (tier : Tier) :
    IsQuiet (updateFrom taken tier : Action σ κ ω Unit) := by
  intro g g' h
  have hlocked : Quiet g [] (g.locked taken) := (Step.locks _).quiet rfl
  rw [updateFrom_eq] at h
  split at h
  · -- however the refresh ends, the locks are released
    have hunlocked : ∀ g₁, ended (refreshUnlessSuppressed tier (g.locked taken)) = some g₁ →
        g₁.unlocked = g' → ∃ deeds, Quiet g deeds g' := by
      rintro g₁ hend rfl
      obtain ⟨deeds, hdeeds⟩ := quiet_refreshUnlessSuppressed tier hend
      exact ⟨_, (hlocked.trans hdeeds).trans ((Step.locks _).quiet rfl)⟩
    cases hrun : refreshUnlessSuppressed tier (g.locked taken) with
    | ok u g₁ =>
      rw [hrun] at h
      exact hunlocked g₁ (ended_of_ok hrun) (Option.some.inj h)
    | error stop g₁ =>
      rw [hrun] at h
      cases stop with
      | unfinished => exact nomatch h
      | failed cause => exact hunlocked g₁ (ended_of_failed hrun) (Option.some.inj h)
  · exact nomatch h

/-- Tiers that are refreshed one after another, whatever comes of each, are refreshed quietly. -/
theorem quiet_updateEach (tiers : List Tier) :
    IsQuiet (updateEach tiers : Action σ κ ω (Option GatewayError)) := by
  induction tiers with
  | nil => exact quiet_pure none
  | cons tier more ih =>
    refine (quiet_updateFrom 0 tier).attempt.bind fun result => ih.bind fun later => ?_
    cases result with
    | ok u => exact quiet_pure later
    | error cause => exact quiet_pure (some cause)

/-- Polling all tiers is quiet. -/
theorem quiet_pollAll : IsQuiet (pollAll : Action σ κ ω Unit) :=
  (quiet_updateEach Tier.all).bind fun cause => quiet_raise cause

/-- A single command is quiet, with one more count if its reply reports an error. -/
theorem quiet_immediate (command : String) :
    IsQuiet (immediate command : Action σ κ ω String) := by
  refine (quiet_transact command).bind fun reply => ?_
  dsimp only
  split
  · exact (quiet_modify (fun g => Step.reported) fun g => rfl).bind fun _ => quiet_pure _
  · exact quiet_pure _

/-! ### Checking the connection -/

/-- Operations that consist of steps make one that does. -/
theorem Performs.bind {x : Action σ κ ω α} {f : α → Action σ κ ω β} (hx : Performs x)
    (hf : ∀ a, Performs (f a)) : Performs (x >>= f) := by
  intro g g' h
  rcases ended_bind h with ⟨a, g₁, hok, hend⟩ | hend
  · obtain ⟨deeds, hdeeds⟩ := hx (ended_of_ok hok)
    obtain ⟨later, hlater⟩ := hf a hend
    exact ⟨_, hdeeds.trans hlater⟩
  · exact hx hend

/-- Checking the connection is nothing, or connecting the transport and probing it. -/
theorem performs_ensureConnected : Performs (ensureConnected : Action σ κ ω Bool) := by
  intro g g' h
  rw [ensureConnected_eq] at h
  -- the connection stands, or the transport is asked to connect
  split at h
  · obtain rfl := Option.some.inj h
    exact ⟨[], .refl g⟩
  · next hconnected =>
    rw [Bool.not_eq_true] at hconnected
    cases hdial : Channel.reconnect g.channel with
    | ok u channel =>
      -- once the transport is connected, the probe decides whether there is a session
      simp only [hdial] at h
      cases hprobe : exchange "" { g with linkState := .connecting, channel } with
      | ok reply g₁ =>
        rw [hprobe] at h
        obtain rfl := Option.some.inj h
        exact ⟨_, (Step.proved hconnected hdial hprobe).steps⟩
      | error stop g₁ =>
        rw [hprobe] at h
        cases stop with
        | unfinished => exact nomatch h
        | failed cause =>
          obtain rfl := Option.some.inj h
          exact ⟨_, (Step.unproved hconnected hdial hprobe).steps⟩
    | error stop channel =>
      rw [hdial] at h
      cases stop with
      | unfinished => exact nomatch h
      | failed cause =>
        obtain rfl := Option.some.inj h
        exact ⟨_, (Step.refused hconnected hdial).steps⟩

omit [Listener κ ω] in
/-- Checking the connection ends with an answer. -/
theorem ok_of_ended_ensureConnected {g g' : Gateway σ κ ω}
    (h : ended (ensureConnected g) = some g') : ∃ stands, ensureConnected g = .ok stands g' := by
  cases hrun : ensureConnected g with
  | ok stands g₁ =>
    rw [hrun] at h
    obtain rfl := Option.some.inj h
    exact ⟨stands, rfl⟩
  | error stop g₁ =>
    -- a check of the connection has no failure of its own
    cases stop with
    | failed e => exact absurd hrun (ensureConnected_ne_failed g g₁ e)
    | unfinished =>
      rw [hrun] at h
      exact nomatch h

omit [Listener κ ω] in
/-- To tell of the connection is to check it and then to note, if it stands, that its session is
    told of. -/
theorem status_eq (g : Gateway σ κ ω) :
    status g =
      match ensureConnected g with
      | .ok true g₁ => .ok ⟨true, g₁.newConnection⟩ { g₁ with newConnection := false }
      | .ok false g₁ => .ok ⟨false, false⟩ g₁
      | .error stop g₁ => .error stop g₁ := by
  simp only [status, bind_run, get_run]
  cases ensureConnected g with
  | error stop g₁ => rfl
  | ok connected g₁ =>
    cases connected with
    | false => rfl
    | true =>
      -- nothing is noted if the session is told of already
      cases hnew : g₁.newConnection with
      | true => simp only [hnew]; rfl
      | false =>
        have hsame : ({ g₁ with newConnection := false } : Gateway σ κ ω) = g₁ := by rw [← hnew]
        simp only [hnew, hsame]
        rfl

/-- Telling of the connection is checking it, and then taking down the flag if it stands. -/
theorem performs_status : Performs (status : Action σ κ ω ConnectionStatus) := by
  intro g g' h
  rw [status_eq] at h
  cases hrun : ensureConnected g with
  | ok stands g₁ =>
    obtain ⟨deeds, hdeeds⟩ := performs_ensureConnected (ended_of_ok hrun)
    rw [hrun] at h
    -- only on a connection that stands is the session told of
    cases stands with
    | true =>
      obtain rfl := Option.some.inj h
      exact ⟨_, hdeeds.trans Step.told.steps⟩
    | false =>
      obtain rfl := Option.some.inj h
      exact ⟨deeds, hdeeds⟩
  | error stop g₁ =>
    cases stop with
    | failed cause => exact absurd hrun (ensureConnected_ne_failed g g₁ cause)
    | unfinished =>
      rw [hrun] at h
      exact nomatch h

/-! ### A cycle of the scheduler -/

/-- A visit to a tier refreshes it and catches the failure. -/
theorem quiet_visit (tier : Tier) : IsQuiet (Scheduler.visit tier : Action σ κ ω Bool) := by
  refine (quiet_updateFrom 0 tier).attempt.bind fun result => ?_
  cases result with
  | ok u => exact quiet_pure true
  | error cause => exact quiet_pure _

/-- Visits one after another are quiet, as far as they go. -/
theorem quiet_sweep (tiers : List Tier) :
    IsQuiet (Scheduler.sweep tiers : Action σ κ ω (List Tier)) := by
  induction tiers with
  | nil => exact quiet_pure []
  | cons tier more ih =>
    refine (quiet_visit tier).bind fun goesOn => ?_
    split
    · exact ih.bind fun visited => quiet_pure _
    · exact quiet_pure _

/-- After it has checked the connection a cycle is quiet. -/
theorem cycle_ended {now : Nat} {s : Scheduler} {g g' : Gateway σ κ ω}
    (h : ended (s.cycle now g) = some g') :
    ∃ stands g₁ deeds, ensureConnected g = .ok stands g₁ ∧ Quiet g₁ deeds g' := by
  have hquiet : ∀ stands : Bool, IsQuiet (if stands = true then (do
      let visited ← Scheduler.sweep (s.plan now)
      pure (visited.foldl (Scheduler.note now) s)) else pure s : Action σ κ ω Scheduler) := by
    intro stands
    split
    · exact (quiet_sweep _).bind fun visited => quiet_pure _
    · exact quiet_pure s
  -- the cycle goes on after the check, or ends with it
  rw [Scheduler.cycle_eq] at h
  rcases ended_bind h with ⟨stands, g₁, hok, hend⟩ | hend
  · obtain ⟨deeds, hdeeds⟩ := hquiet stands hend
    exact ⟨stands, g₁, deeds, hok, hdeeds⟩
  · obtain ⟨stands, hok⟩ := ok_of_ended_ensureConnected hend
    exact ⟨stands, g', [], hok, .refl g'⟩

/-- A cycle checks the connection and refreshes what is due. -/
theorem performs_cycle (now : Nat) (s : Scheduler) :
    Performs (s.cycle now : Action σ κ ω Scheduler) := by
  intro g g' h
  obtain ⟨stands, g₁, later, hok, hquiet⟩ := cycle_ended h
  obtain ⟨deeds, hdeeds⟩ := performs_ensureConnected (ended_of_ok hok)
  exact ⟨_, hdeeds.trans hquiet.steps⟩

end PmacPoll.Gateway
