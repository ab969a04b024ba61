import PmacPoll.Proofs.GatewaySteps

/-!
# Runs of a gateway

The operations that clients may call are the constructors of `Operation`, and `Reachable` is every
gateway that some of them, in any order and over any transport, make out of a new one. A `Run` is
made of operations and of cycles of the scheduler. Both are made of the steps of a gateway.

Between two operations the connection stands or it does not: that it is being set up is seen by
nobody, `settled_of_reachable`.
-/

namespace PmacPoll.Gateway

variable {σ κ ω α β : Type}

/-- What clients may call. -/
inductive Operation (κ : Type) where
  | addVariable (tier : Tier) (name : String)
  | addMonitored (tier : Tier) (list : String)
  | removeVariable (tier : Tier) (name : String)
  | register (listener : κ) (tier : Tier)
  | immediate (command : String)
  /-- A refresh, from where the first locks are taken. -/
  | update (taken : Nat) (tier : Tier)
  | pollAll
  | checkConnection
  | status
  | suppress
  | reinstate

/-- What clients are told. -/
inductive Answer where
  | done
  | count (names : Nat)
  | found (found : Bool)
  | text (text : String)
  | connected (connected : Bool)
  | status (status : ConnectionStatus)
  deriving DecidableEq, Repr

/-- Carries an operation out. -/
def Operation.run [Transport σ] [Listener κ ω] : Operation κ → Action σ κ ω Answer
  | addVariable tier name => do modify (Gateway.addVariable tier name); pure .done
  | addMonitored tier list => fun g =>
    let (count, g) := g.addMonitored tier list
    .ok (.count count) g
  | removeVariable tier name => fun g =>
    let (found, g) := g.removeVariable tier name
    .ok (.found found) g
  | register listener tier => do modify (Gateway.register listener tier); pure .done
  | immediate command => do pure (.text (← Gateway.immediate command))
  | update taken tier => do updateFrom taken tier; pure .done
  | pollAll => do Gateway.pollAll; pure .done
  | checkConnection => do pure (.connected (← Gateway.checkConnection))
  | status => do pure (.status (← Gateway.status))
  | suppress => do modify Gateway.suppress; pure .done
  | reinstate => do modify Gateway.reinstate; pure .done

/-- A gateway that clients can be faced with. -/
inductive Reachable [Transport σ] [Listener κ ω] : Gateway σ κ ω → Prop where
  | new (link : σ) (config : Channel.Config) (locks : Nat) (connected : Bool) :
      Reachable (.new link config locks connected)
  | step {g g' : Gateway σ κ ω} (op : Operation κ) :
      Reachable g → ended (op.run g) = some g' → Reachable g'
  /-- Between two operations anything may happen on the link, and anybody may take or release an
      outside lock. -/
  | outside {g : Gateway σ κ ω} (link : σ) (locks : List Bool) :
      Reachable g → Reachable { g with channel := { g.channel with link }, locks }

variable [Transport σ] [Listener κ ω]

/-- A run from one gateway to another. -/
inductive Run (start : Gateway σ κ ω) : Gateway σ κ ω → Prop where
  | start : Run start start
  | operation {g g' : Gateway σ κ ω} (op : Operation κ) :
      Run start g → ended (op.run g) = some g' → Run start g'
  | cycle {g g' : Gateway σ κ ω} (now : Nat) (s : Scheduler) :
      Run start g → ended (s.cycle now g) = some g' → Run start g'
  /-- Between two operations anybody may take or release an outside lock. -/
  | outside {g : Gateway σ κ ω} (locks : List Bool) : Run start g → Run start { g with locks }

/-! ### Steps of a run -/

/-- Does the operation check the connection? -/
def Operation.checks : Operation κ → Bool
  | .checkConnection | .status => true
  | _ => false

/-- An operation that does not check the connection is quiet. -/
theorem quiet_run {op : Operation κ} (hop : op.checks = false) :
    IsQuiet (op.run : Action σ κ ω Answer) := by
  -- only two of the operations check the connection; every other one is quiet
  cases op with
  | addVariable tier name =>
    exact (quiet_modify (fun g => Step.addVariables tier [name]) fun g => rfl).bind
      fun _ => quiet_pure _
  | addMonitored tier list =>
    intro g g' h
    obtain rfl := Option.some.inj h
    exact ⟨_, (Step.addVariables tier (Text.words list)).quiet rfl⟩
  | removeVariable tier name =>
    intro g g' h
    obtain rfl := Option.some.inj h
    exact ⟨_, (Step.removeVariable tier name).quiet rfl⟩
  | register listener tier =>
    exact (quiet_modify (fun g => Step.register listener tier) fun g => rfl).bind
      fun _ => quiet_pure _
  | immediate command => exact (quiet_immediate command).bind fun text => quiet_pure _
  | update taken tier => exact (quiet_updateFrom taken tier).bind fun _ => quiet_pure _
  | pollAll => exact quiet_pollAll.bind fun _ => quiet_pure _
  | checkConnection | status => exact nomatch hop
  | suppress =>
    exact (quiet_modify (fun g => Step.suppress) fun g => rfl).bind fun _ => quiet_pure _
  | reinstate =>
    exact (quiet_modify (fun g => Step.reinstate) fun g => rfl).bind fun _ => quiet_pure _

/-- Every operation is made of steps. -/
theorem performs_run (op : Operation κ) : Performs (op.run : Action σ κ ω Answer) := by
  cases hop : op.checks with
  | false => exact (quiet_run hop).performs
  | true =>
    cases op with
    | checkConnection => exact performs_ensureConnected.bind fun _ => (quiet_pure _).performs
    | status => exact performs_status.bind fun _ => (quiet_pure _).performs
    | _ => exact nomatch hop

/-- A run is made of steps. -/
theorem steps_of_run {start g : Gateway σ κ ω} (h : Run start g) :
    ∃ deeds, Steps start deeds g := by
  -- each operation and each cycle adds its steps to those before it
  induction h with
  | start => exact ⟨[], .refl start⟩
  | operation op _ hend ih =>
    obtain ⟨deeds, hdeeds⟩ := ih
    obtain ⟨later, hlater⟩ := performs_run op hend
    exact ⟨_, hdeeds.trans hlater⟩
  | cycle now s _ hend ih =>
    obtain ⟨deeds, hdeeds⟩ := ih
    obtain ⟨later, hlater⟩ := performs_cycle now s hend
    exact ⟨_, hdeeds.trans hlater⟩
  | outside locks _ ih =>
    obtain ⟨deeds, hdeeds⟩ := ih
    exact ⟨_, hdeeds.trans (Step.locks locks).steps⟩

/-! ### Between operations -/

/-- The connection stands or it does not. -/
def Settled (g : Gateway σ κ ω) : Prop := g.linkState ≠ .connecting

omit [Transport σ] [Listener κ ω] in
/-- A new gateway is connected or it is not. -/
theorem settled_new (link : σ) (config : Channel.Config) (locks : Nat) (connected : Bool) :
    (new link config locks connected : Gateway σ κ ω).Settled := by
  cases connected <;> exact nofun

/-- Only in the middle of a step is the connection being set up. -/
theorem Step.settled {g g' : Gateway σ κ ω} {deeds : List Deed} (h : Step g deeds g')
    (hg : g.Settled) : g'.Settled := by
  cases h with
  | considered tier =>
    obtain ⟨count, h⟩ := snd_suppresses tier g
    rw [h]
    exact hg
  | replied _ hexchange =>
    obtain ⟨x, channel, -, -, rfl⟩ := exchange_ok hexchange
    exact hg
  -- each of these decides whether the connection stands, and no other step touches it
  | lost | refused | proved | unproved => exact nofun
  | _ => exact hg

/-- So does a sequence of steps. -/
theorem Steps.settled {g g' : Gateway σ κ ω} {deeds : List Deed} (h : Steps g deeds g')
    (hg : g.Settled) : g'.Settled := by
  induction h with
  | refl => exact hg
  | head hstep _ ih => exact ih (hstep.settled hg)

/-- Nobody meets a gateway that is connecting. -/
theorem settled_of_reachable {g : Gateway σ κ ω} (h : Reachable g) : g.Settled := by
  induction h with
  | new link config locks connected => exact settled_new link config locks connected
  | step op _ hend ih =>
    obtain ⟨deeds, hdeeds⟩ := performs_run op hend
    exact hdeeds.settled ih
  | outside link locks _ ih => exact ih

end PmacPoll.Gateway
