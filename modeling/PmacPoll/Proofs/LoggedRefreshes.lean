import PmacPoll.ChangeLog
import PmacPoll.Proofs.DeviceReplies
import PmacPoll.Proofs.RefreshLog
import PmacPoll.Proofs.RefreshOutcome

/-!
# Runs and their logs of refreshes

All that a gateway keeps of its refreshes follows from the log of its run, `FollowsLog`: how many
were completed, the record of the last one of each tier, and what became of the listeners and was
reported by them.

A completed refresh adds one event to the log and any other refresh none, `followsLog_update`. A
poll of all tiers and a cycle of the scheduler are refreshes one after another,
`followsLog_attempts`. The main result is `logged_refreshes`.
-/

namespace PmacPoll.Gateway

open Running RefreshEvent

variable {σ κ ω : Type}

/-! ### Refreshes one after another -/

/-- Has an operation come to an end? -/
def hasEnded {α : Type} : Except (Stop GatewayError) α → Bool
  | .error .unfinished => false
  | _ => true

/-- The failure that an operation came to. -/
def failure? {α : Type} : Except (Stop GatewayError) α → Option GatewayError
  | .error (.failed cause) => some cause
  | _ => none

section Attempts

variable [Transport σ] [Listener κ ω]

/-- Refreshes of some tiers one after another, as long as what they come to allows it: each tier
    with the gateway that its refresh finds. -/
def attempts (goesOn : Except (Stop GatewayError) Unit → Bool) :
    List Tier → Gateway σ κ ω → List (Tier × Gateway σ κ ω)
  | [], _ => []
  | tier :: more, g =>
    (tier, g) ::
      if goesOn (outcome (update tier g)) then attempts goesOn more (finalState (update tier g))
      else []

/-- The gateway after some refreshes. -/
def afterAttempts (g : Gateway σ κ ω) (attempts : List (Tier × Gateway σ κ ω)) : Gateway σ κ ω :=
  attempts.foldl (fun _ attempt => finalState (update attempt.1 attempt.2)) g

/-- What a refresh adds to the log. -/
def updateEvents (taken : Nat) (tier : Tier) (g : Gateway σ κ ω) : List (RefreshEvent κ) :=
  if Completes taken tier g then [.completed (g.notice taken tier)] else []

/-- What some refreshes add to the log. -/
def attemptEvents (attempts : List (Tier × Gateway σ κ ω)) : List (RefreshEvent κ) :=
  attempts.flatMap fun attempt => updateEvents 0 attempt.1 attempt.2

/-- The refreshes of a poll of all tiers: one that fails does not keep the next one from being
    attempted. -/
def pollAttempts (g : Gateway σ κ ω) : List (Tier × Gateway σ κ ω) :=
  attempts hasEnded Tier.all g

/-- The refreshes of a cycle of the scheduler: a failure of the link ends the cycle. -/
def cycleAttempts (s : Scheduler) (now : Nat) (g : Gateway σ κ ω) :
    List (Tier × Gateway σ κ ω) :=
  match checkConnection g with
  | .ok true g₁ => attempts linkHeld (s.plan now) g₁
  | _ => []

/-! ### Runs with their logs -/

/-- What an operation adds to the log. -/
def Operation.refreshEvents (op : Operation κ) (g : Gateway σ κ ω) : List (RefreshEvent κ) :=
  match op with
  | .register listener tier => [.registered listener tier]
  | .update taken tier => updateEvents taken tier g
  | .pollAll => attemptEvents g.pollAttempts
  | _ => []

/-- What a cycle of the scheduler adds to the log. -/
def cycleEvents (s : Scheduler) (now : Nat) (g : Gateway σ κ ω) : List (RefreshEvent κ) :=
  match checkConnection g with
  | .ok true g₁ => attemptEvents (attempts linkHeld (s.plan now) g₁)
  | _ => []

/-- A run from one gateway to another, with its log. An operation that does not come to an end
    leaves the gateway as it is when it begins to wait. -/
inductive Logged (start : Gateway σ κ ω) : List (RefreshEvent κ) → Gateway σ κ ω → Prop where
  | start : Logged start [] start
  | operation {log : List (RefreshEvent κ)} {g : Gateway σ κ ω} (op : Operation κ) :
      Logged start log g → Logged start (log ++ op.refreshEvents g) (finalState (op.run g))
  | cycle {log : List (RefreshEvent κ)} {g : Gateway σ κ ω} (now : Nat) (s : Scheduler) :
      Logged start log g → Logged start (log ++ cycleEvents s now g) (finalState (s.cycle now g))
  /-- Between two operations anything may happen on the link, and anybody may take or release an
      outside lock. -/
  | outside {log : List (RefreshEvent κ)} {g : Gateway σ κ ω} (link : σ) (locks : List Bool) :
      Logged start log g →
      Logged start log { g with channel := { g.channel with link }, locks }

end Attempts

/-! ### What a gateway keeps of its log -/

/-- What is kept for a tier is what the log says. -/
structure FollowsTier [Listener κ ω] (log : List (RefreshEvent κ)) (tier : Tier)
    (state : TierState κ) : Prop where
  table : state.table.Kept
  lastUpdate : LastOf (completions log) tier state.lastUpdate
  listeners : state.listeners = audience tier log

/-- What a gateway keeps of its refreshes is what the log says. -/
structure FollowsLog [Listener κ ω] (log : List (RefreshEvent κ)) (g : Gateway σ κ ω) : Prop where
  tiers : ∀ tier, FollowsTier log tier (g.tiers.get tier)
  sequence : g.sequence = (completions log).length
  journal : g.journal = reports (calls log)

section FollowsLog

variable [Listener κ ω] {log : List (RefreshEvent κ)} {g g' : Gateway σ κ ω}

/-- A gateway that follows a log has the commands of its names, in every tier. -/
theorem FollowsLog.tablesKept (h : FollowsLog log g) : g.TablesKept :=
  fun tier => (h.tiers tier).table

/-- A gateway that was just made follows the empty log. -/
theorem followsLog_new (link : σ) (config : Channel.Config) (locks : Nat) (connected : Bool) :
    FollowsLog [] (new link config locks connected : Gateway σ κ ω) where
  tiers tier := by
    show FollowsTier [] tier ((PerTier.replicate {}).get tier)
    rw [PerTier.get_replicate]
    exact ⟨VariableTable.kept_empty, List.not_mem_nil, rfl⟩
  sequence := rfl
  journal := rfl

/-- What leaves tables, records, listeners and reports alone leaves the gateway following its
    log. -/
theorem FollowsLog.sameRecords (h : FollowsLog log g) (hsame : SameRecords g g') :
    FollowsLog log g' where
  tiers tier := by
    rw [hsame.tiers]
    exact h.tiers tier
  sequence := hsame.sequence.trans h.sequence
  journal := hsame.journal.trans h.journal

/-- The names of a tier and their values are nothing that the log tells of. -/
private theorem FollowsLog.withTable (h : FollowsLog log g) (tier : Tier) {table : VariableTable}
    (htable : table.Kept) :
    FollowsLog log (g.modifyTier tier fun state => { state with table }) where
  tiers := forall_get_set (fun other _ => h.tiers other)
    ⟨htable, (h.tiers tier).lastUpdate, (h.tiers tier).listeners⟩
  sequence := h.sequence
  journal := h.journal

/-- A listener that is registered comes last in the audience of its tier, and nothing else
    changes. -/
theorem FollowsLog.registered (h : FollowsLog log g) (listener : κ) (tier : Tier) :
    FollowsLog (log ++ [.registered listener tier]) (g.register listener tier) where
  tiers := by
    -- the tier of the listener and the others are two cases, as it is heard by one only
    refine forall_get_set (fun other hother => ⟨(h.tiers other).table, ?_, ?_⟩)
      ⟨(h.tiers tier).table, ?_, ?_⟩
    · rw [completions_registered]
      exact (h.tiers other).lastUpdate
    · rw [audience_registered, if_neg hother.symm, List.append_nil]
      exact (h.tiers other).listeners
    · rw [completions_registered]
      exact (h.tiers tier).lastUpdate
    · rw [audience_registered, if_pos rfl, ← (h.tiers tier).listeners]
  sequence := by
    rw [completions_registered]
    exact h.sequence
  journal := by
    rw [reports_registered]
    exact h.journal

/-- A completed refresh is one more event. -/
theorem FollowsLog.completed {n : Notice} [Transport σ] (h : FollowsLog log g)
    (hcompleted : CompletedRefresh n g g') : FollowsLog (log ++ [.completed n]) g' where
  tiers tier := by
    by_cases htier : tier = n.tier
    · -- the tier of the notice
      subst htier
      obtain ⟨replies, -, -, hstored⟩ := hcompleted.stored
      obtain ⟨completedAt, duration, hlast⟩ := hcompleted.lastUpdate
      refine ⟨?_, ?_, ?_⟩
      · rw [← table, hstored]
        exact kept_storeReplies (h.tiers n.tier).table replies
      · rw [← Gateway.lastUpdate, hlast, completions_completed]
        exact lastOf_self _ (congrArg (· + 1) h.sequence)
      · rw [hcompleted.listeners, audience_completed, if_pos rfl, (h.tiers n.tier).listeners]
    · -- the other tiers are as they were
      have hsame := h.tiers tier
      rw [← hcompleted.others tier htier] at hsame
      refine ⟨hsame.table, ?_, ?_⟩
      · rw [completions_completed]
        exact hsame.lastUpdate.append_other (Ne.symm htier)
      · rw [audience_completed, if_neg (Ne.symm htier)]
        exact hsame.listeners
  sequence := by
    rw [hcompleted.sequence, h.sequence, completions_completed, List.length_append]
    rfl
  journal := by
    rw [hcompleted.journal, h.journal, (h.tiers n.tier).listeners, reports_completed]

end FollowsLog

/-! ### Operations and cycles -/

section Operations

variable [Transport σ] [Listener κ ω] {log : List (RefreshEvent κ)} {g g' : Gateway σ κ ω}

/-- A refresh adds an event to the log just if it is completed. -/
theorem followsLog_update (h : FollowsLog log g) (taken : Nat) (tier : Tier) :
    FollowsLog (log ++ updateEvents taken tier g) (finalState (updateFrom taken tier g)) := by
  unfold updateEvents
  split
  · next hcompletes => exact h.completed (completedRefresh_of_completes h.tablesKept hcompletes)
  · next hnot =>
    rw [List.append_nil]
    exact h.sameRecords (sameRecords_of_not_completes h.tablesKept hnot)

/-- Refreshes one after another follow the log in as many steps. -/
theorem followsLog_attempts (goesOn : Except (Stop GatewayError) Unit → Bool) (tiers : List Tier)
    (h : FollowsLog log g) :
    FollowsLog (log ++ attemptEvents (attempts goesOn tiers g))
      (afterAttempts g (attempts goesOn tiers g)) := by
  -- on the tiers that are left, with the log and the gateway that the first refresh leaves
  induction tiers generalizing log g with
  | nil =>
    rw [attempts]
    exact (List.append_nil log).symm ▸ h
  | cons tier more ih =>
    have hfirst := followsLog_update h 0 tier
    rw [attempts, attemptEvents, List.flatMap_cons, ← attemptEvents, ← List.append_assoc]
    split
    · exact ih hfirst
    · exact (List.append_nil _).symm ▸ hfirst

/-- The first attempt is made before the others. -/
theorem afterAttempts_cons (tier : Tier) (g₁ : Gateway σ κ ω)
    (more : List (Tier × Gateway σ κ ω)) :
    afterAttempts g ((tier, g₁) :: more) = afterAttempts (finalState (update tier g₁)) more := rfl

/-- A visit goes on to the next tier just if the refresh did not lose the link. -/
theorem goesOn_visitTo (tier : Tier) (g : Gateway σ κ ω) :
    (visitTo tier g).goesOn = linkHeld (outcome (update tier g)) := by
  rw [Visit.goesOn, visitTo]
  cases update tier g with
  | ok u g₁ => rfl
  | error stop g₁ => cases stop <;> rfl

/-- A sweep over some tiers refreshes them one after another, as long as the link holds. -/
private theorem finalState_sweep (tiers : List Tier) (g : Gateway σ κ ω) :
    finalState (Scheduler.sweep tiers g) = afterAttempts g (attempts linkHeld tiers g) := by
  induction tiers generalizing g with
  | nil => rfl
  | cons tier more ih =>
    have hgoesOn := goesOn_visitTo tier g
    rw [Scheduler.sweep, bind_run, attempts, afterAttempts_cons]
    rcases visit_visitTo tier g with ⟨-, hvisit⟩ | ⟨hunfinished, hvisit⟩
    · rw [hvisit, ← hgoesOn]
      -- a refresh that keeps the link is followed by the next one, and the sweep stops at any other
      cases (visitTo tier g).goesOn with
      | true =>
        show finalState ((Scheduler.sweep more >>= fun visited => pure (tier :: visited)) _) = _
        rw [finalState_bind_pure]
        exact ih _
      | false => rfl
    · rw [hvisit, show linkHeld (outcome (update tier g)) = false from ?_]
      · rfl
      · rw [show outcome (update tier g) = .error .unfinished from hunfinished]
        rfl

/-- Tiers are refreshed one after another; a failure is kept, and only a refresh without an end
    stops the others. -/
private theorem updateEach_cons (tier : Tier) (more : List Tier) (g : Gateway σ κ ω) :
    updateEach (tier :: more) g =
      match update tier g with
      | .ok () g₁ => updateEach more g₁
      | .error (.failed cause) g₁ => (updateEach more >>= fun _ => pure (some cause)) g₁
      | .error .unfinished g₁ => .error .unfinished g₁ := by
  simp only [updateEach, bind_run, attempt]
  cases update tier g with
  | ok u g₁ =>
    simp only [pure_run]
    cases updateEach more g₁ <;> rfl
  | error stop g₁ => cases stop <;> rfl

/-- Each tier is attempted on the gateway that the one before left. -/
private theorem finalState_updateEach (tiers : List Tier) (g : Gateway σ κ ω) :
    finalState (updateEach tiers g) = afterAttempts g (attempts hasEnded tiers g) := by
  induction tiers generalizing g with
  | nil => rfl
  | cons tier more ih =>
    rw [updateEach_cons, attempts, afterAttempts_cons]
    cases update tier g with
    | ok u g₁ => exact ih g₁
    | error stop g₁ =>
      cases stop with
      -- a failure does not keep the other tiers from being refreshed
      | failed cause =>
        simp only [finalState_bind_pure]
        exact ih g₁
      | unfinished => rfl

/-- If each refresh comes to an end then all tiers are attempted, whatever becomes of each, and the
    first failure is given. -/
private theorem outcome_updateEach (tiers : List Tier) (g : Gateway σ κ ω)
    (h : ∀ attempt ∈ attempts hasEnded tiers g,
      hasEnded (outcome (update attempt.1 attempt.2)) = true) :
    (attempts hasEnded tiers g).map Prod.fst = tiers ∧
      outcome (updateEach tiers g) = .ok ((attempts hasEnded tiers g).findSome? fun attempt =>
        failure? (outcome (update attempt.1 attempt.2))) := by
  induction tiers generalizing g with
  | nil => exact ⟨rfl, rfl⟩
  | cons tier more ih =>
    -- the first refresh did come to an end, so that there is an attempt on the others
    rw [attempts] at h
    have hended := h (tier, g) List.mem_cons_self
    rw [hended, if_pos rfl] at h
    obtain ⟨htiers, hmore⟩ := ih (finalState (update tier g))
      fun attempt hattempt => h attempt (List.mem_cons_of_mem _ hattempt)
    rw [attempts, hended, if_pos rfl, List.map_cons, htiers, List.findSome?_cons, updateEach_cons]
    refine ⟨rfl, ?_⟩
    -- a failure is kept and the others follow all the same
    cases hrun : update tier g with
    | ok u g₁ =>
      rw [hrun] at hmore
      exact hmore
    | error stop g₁ =>
      cases stop with
      | failed cause =>
        rw [hrun] at hmore
        simp only [outcome_bind_pure]
        rw [show outcome (updateEach more g₁) = _ from hmore]
        rfl
      | unfinished =>
        rw [hrun] at hended
        exact nomatch hended

/-- Polling all tiers leaves what its attempts leave. -/
theorem finalState_pollAll (g : Gateway σ κ ω) :
    finalState (pollAll g) = afterAttempts g g.pollAttempts := by
  rw [pollAttempts, ← finalState_updateEach, pollAll, bind_run]
  cases updateEach Tier.all g with
  | ok cause g₁ => cases cause <;> rfl
  | error stop g₁ => rfl

omit [Listener κ ω] in
/-- A single command changes no table and no record. -/
theorem immediate_sameData (command : String) (g : Gateway σ κ ω) :
    SameData g (finalState (immediate command g)) := by
  have hdata := transact_sameData command g
  simp only [immediate, bind_run]
  cases htransact : transact command g with
  | error stop g₁ =>
    rw [htransact] at hdata
    exact hdata
  | ok reply g₁ =>
    rw [htransact] at hdata
    dsimp only
    split
    · -- an error in the reply is counted, and no more
      exact hdata.trans ⟨rfl, rfl, rfl, rfl, rfl, rfl, rfl⟩
    · exact hdata

omit [Listener κ ω] in
/-- Telling of the connection changes no table and no record. -/
theorem status_sameData (g : Gateway σ κ ω) : SameData g (finalState (status g)) := by
  have hdata := ensureConnected_sameData g
  rw [status_eq]
  cases hcheck : ensureConnected g with
  | error stop g₁ =>
    rw [hcheck] at hdata
    exact hdata
  | ok stands g₁ =>
    rw [hcheck] at hdata
    -- the report is given to whoever asked, and no data
    cases stands with
    | true => exact hdata.trans ⟨rfl, rfl, rfl, rfl, rfl, rfl, rfl⟩
    | false => exact hdata

/-- One operation adds its refreshes to the log, and the gateway keeps up with it. -/
theorem followsLog_run (h : FollowsLog log g) (op : Operation κ) :
    FollowsLog (log ++ op.refreshEvents g) (finalState (op.run g)) := by
  -- most operations are not on the log
  have hsilent : op.refreshEvents g = [] → FollowsLog log (finalState (op.run g)) →
      FollowsLog (log ++ op.refreshEvents g) (finalState (op.run g)) := by
    intro hnone hfollows
    rw [hnone, List.append_nil]
    exact hfollows
  cases op with
  | register listener tier => exact h.registered listener tier
  | update taken tier =>
    rw [Operation.run, finalState_bind_pure]
    exact followsLog_update h taken tier
  | pollAll =>
    rw [Operation.run, finalState_bind_pure, finalState_pollAll]
    exact followsLog_attempts hasEnded Tier.all h
  | addVariable tier name =>
    exact hsilent rfl (h.withTable tier (VariableTable.kept_addAll (h.tiers tier).table [name]))
  | addMonitored tier list =>
    exact hsilent rfl
      (h.withTable tier (VariableTable.kept_addAll (h.tiers tier).table (Text.words list)))
  | removeVariable tier name =>
    exact hsilent rfl (h.withTable tier (VariableTable.kept_remove (h.tiers tier).table name))
  | immediate command =>
    apply hsilent rfl
    rw [Operation.run, finalState_bind_pure]
    exact h.sameRecords (immediate_sameData command g).sameRecords
  | checkConnection =>
    apply hsilent rfl
    rw [Operation.run, finalState_bind_pure]
    exact h.sameRecords (ensureConnected_sameData g).sameRecords
  | status =>
    apply hsilent rfl
    rw [Operation.run, finalState_bind_pure]
    exact h.sameRecords (status_sameData g).sameRecords
  | suppress | reinstate => exact hsilent rfl (h.sameRecords ⟨rfl, rfl, rfl⟩)

/-- A cycle checks the connection and then refreshes tiers one after another. -/
theorem finalState_cycle (s : Scheduler) (now : Nat) (g : Gateway σ κ ω) :
    finalState (s.cycle now g) =
      afterAttempts (finalState (checkConnection g)) (cycleAttempts s now g) := by
  rw [cycleAttempts]
  -- the cycle goes on just if the connection stands
  cases hcheck : checkConnection g with
  | error stop g₁ =>
    rw [Scheduler.cycle_of_error hcheck]
    rfl
  | ok stands g₁ =>
    cases stands with
    | false =>
      rw [Scheduler.cycle_of_unconnected hcheck]
      rfl
    | true =>
      rw [Scheduler.cycle_of_connected hcheck, finalState_bind_pure, finalState_sweep]
      rfl

/-- The tiers of the plan are attempted, or none is. -/
theorem cycleAttempts_eq (s : Scheduler) (now : Nat) (g : Gateway σ κ ω) :
    ∃ tiers, (tiers = s.plan now ∨ tiers = []) ∧
      cycleAttempts s now g = attempts linkHeld tiers (finalState (checkConnection g)) := by
  rw [cycleAttempts]
  cases checkConnection g with
  | error stop g₁ => exact ⟨[], .inr rfl, rfl⟩
  | ok stands g₁ =>
    cases stands with
    | false => exact ⟨[], .inr rfl, rfl⟩
    | true => exact ⟨s.plan now, .inl rfl, rfl⟩

/-- The events of a cycle are those of its attempts. -/
private theorem cycleEvents_eq (s : Scheduler) (now : Nat) (g : Gateway σ κ ω) :
    cycleEvents s now g = attemptEvents (cycleAttempts s now g) := by
  rw [cycleEvents, cycleAttempts]
  split <;> rfl

/-- A cycle adds its refreshes to the log, and the gateway keeps up with it. -/
theorem followsLog_cycle (h : FollowsLog log g) (now : Nat) (s : Scheduler) :
    FollowsLog (log ++ cycleEvents s now g) (finalState (s.cycle now g)) := by
  have hchecked : FollowsLog log (finalState (checkConnection g)) :=
    h.sameRecords (ensureConnected_sameData g).sameRecords
  obtain ⟨tiers, -, hattempts⟩ := cycleAttempts_eq s now g
  rw [cycleEvents_eq, finalState_cycle, hattempts]
  exact followsLog_attempts linkHeld tiers hchecked

/-- So it is in a run, one operation or cycle after another. -/
theorem followsLog_logged {link : σ} {config : Channel.Config} {locks : Nat} {connected : Bool}
    (h : Logged (.new link config locks connected) log g) : FollowsLog log g := by
  induction h with
  | start => exact followsLog_new link config locks connected
  | operation op _ ih => exact followsLog_run ih op
  | cycle now s _ ih => exact followsLog_cycle ih now s
  | outside link locks _ ih => exact ⟨ih.tiers, ih.sequence, ih.journal⟩

end Operations

/-! ### Every run -/

section Run

variable [Transport σ] [Listener κ ω] {link : σ} {config : Channel.Config} {locks : Nat}
  {connected : Bool} {log : List (RefreshEvent κ)} {g : Gateway σ κ ω}

/-- The tiers that a poll completes, in their order. -/
def pollCompletions (g : Gateway σ κ ω) : List Tier :=
  (g.pollAttempts.filter fun attempt => Completes 0 attempt.1 attempt.2).map Prod.fst

/-- What a refresh does, by whether it is completed. -/
structure Settles (taken : Nat) (tier : Tier) (g : Gateway σ κ ω) : Prop where
  completed : Completes taken tier g →
    CompletedRefresh (g.notice taken tier) g (finalState (updateFrom taken tier g))
  otherwise : ¬ Completes taken tier g → SameRecords g (finalState (updateFrom taken tier g))

/-- What a poll of all tiers does. -/
structure PollOrder (g : Gateway σ κ ω) : Prop where
  settles : ∀ attempt ∈ g.pollAttempts, Settles 0 attempt.1 attempt.2
  /-- All tiers are attempted in their order, and the first failure is given, unless a refresh does
      not come to an end. -/
  attempted : (∀ attempt ∈ g.pollAttempts,
      hasEnded (outcome (update attempt.1 attempt.2)) = true) →
    g.pollAttempts.map Prod.fst = Tier.all ∧
      outcome (pollAll g) = match g.pollAttempts.findSome? fun attempt =>
          failure? (outcome (update attempt.1 attempt.2)) with
        | some cause => .error (.failed cause)
        | none => .ok ()
  inOrder : g.pollCompletions.Sublist Tier.all
  /-- The tiers that are completed get the next numbers, in their order. -/
  numbered : ∀ i (hi : i < g.pollCompletions.length), ∃ update,
    (finalState (pollAll g)).lastUpdate g.pollCompletions[i] = some update ∧
      update.sequence = g.sequence + i + 1

/-- What a refresh does on the tables of a run depends on whether it is completed alone. -/
private theorem settles_of_tablesKept (h : g.TablesKept) (taken : Nat) (tier : Tier) :
    Settles taken tier g where
  completed := completedRefresh_of_completes h
  otherwise := sameRecords_of_not_completes h

/-- The completions of some attempts are the tiers of those that were completed. -/
private theorem completions_attemptEvents (attempts : List (Tier × Gateway σ κ ω)) :
    completions (attemptEvents attempts) =
      (attempts.filter fun attempt => Completes 0 attempt.1 attempt.2).map Prod.fst := by
  induction attempts with
  | nil => rfl
  | cons attempt more ih =>
    rw [attemptEvents, List.flatMap_cons, ← attemptEvents, completions, List.filterMap_append,
      ← completions, ← completions, ih, updateEvents, List.filter_cons]
    -- an attempt is in the log just if it completes
    by_cases h : Completes 0 attempt.1 attempt.2
    · rw [if_pos h, if_pos (decide_eq_true h)]
      rfl
    · rw [if_neg h, if_neg (by simpa using h)]
      rfl

/-- The tiers that are attempted are the first ones, as many as the refreshes allow. -/
theorem map_fst_attempts (goesOn : Except (Stop GatewayError) Unit → Bool) (tiers : List Tier)
    (g : Gateway σ κ ω) : (attempts goesOn tiers g).map Prod.fst <+: tiers := by
  induction tiers generalizing g with
  | nil => exact List.nil_prefix
  | cons tier more ih =>
    rw [attempts, List.map_cons, List.prefix_cons_inj]
    split
    · exact ih _
    · exact List.nil_prefix

/-- Each of some refreshes finds a gateway that keeps to a log. -/
private theorem tablesKept_attempts {goesOn : Except (Stop GatewayError) Unit → Bool}
    {tiers : List Tier}
    (h : FollowsLog log g) : ∀ attempt ∈ attempts goesOn tiers g, attempt.2.TablesKept := by
  induction tiers generalizing log g with
  | nil => exact fun attempt hattempt => nomatch hattempt
  | cons tier more ih =>
    intro attempt hattempt
    rcases List.mem_cons.mp hattempt with rfl | hlater
    · exact h.tablesKept
    · split at hlater
      · exact ih (followsLog_update h 0 tier) attempt hlater
      · exact nomatch hlater

/-- A poll completes tiers in their order, each at most once. -/
private theorem pollCompletions_sublist (g : Gateway σ κ ω) :
    g.pollCompletions.Sublist Tier.all := by
  have hfilter := List.filter_sublist
    (p := fun attempt => decide (Completes 0 attempt.1 attempt.2)) (l := g.pollAttempts)
  exact (hfilter.map Prod.fst).trans (map_fst_attempts hasEnded Tier.all g).sublist

/-- A gateway that follows its log polls in order. -/
private theorem pollOrder_of_followsLog (h : FollowsLog log g) : PollOrder g where
  settles attempt hattempt := settles_of_tablesKept (tablesKept_attempts h attempt hattempt) 0 _
  attempted hended := by
    obtain ⟨htiers, houtcome⟩ := outcome_updateEach Tier.all g hended
    refine ⟨htiers, ?_⟩
    rw [pollAll, bind_run]
    cases hrun : updateEach Tier.all g with
    | error stop g₁ =>
      rw [hrun] at houtcome
      exact nomatch houtcome
    | ok cause g₁ =>
      rw [hrun] at houtcome
      rw [pollAttempts, ← Except.ok.inj houtcome]
      cases cause <;> rfl
  inOrder := pollCompletions_sublist g
  numbered i hi := by
    have hafter : FollowsLog (log ++ attemptEvents g.pollAttempts) (finalState (pollAll g)) := by
      rw [finalState_pollAll]
      -- the poll as a whole goes on the log, so that its completions are the last ones there
      exact followsLog_attempts hasEnded Tier.all h
    have hcompletions : completions (log ++ attemptEvents g.pollAttempts) =
        completions log ++ g.pollCompletions := by
      rw [completions, List.filterMap_append, ← completions, ← completions,
        completions_attemptEvents]
      rfl
    have hlast := (hafter.tiers g.pollCompletions[i]).lastUpdate
    rw [hcompletions] at hlast
    have hnodup : g.pollCompletions.Nodup := (pollCompletions_sublist g).nodup (by decide)
    rw [h.sequence]
    exact LastOf.getElem hnodup hi hlast

/-- **The log of refreshes.** A gateway is made over any transport, and operations and cycles follow
    in any order. It counts the refreshes that were completed. A tier has no record until one of it
    is completed, and then the ordinal of the last one; so the records of different tiers have
    different numbers, in the order of their last completions. A completed refresh stores all
    replies and then calls each listener of its tier once, in the order of registration; no other
    refresh and no other operation calls a listener. A poll attempts all tiers, gives those that it
    completes the next numbers in their order, and gives the first failure. -/
theorem logged_refreshes (h : Logged (.new link config locks connected) log g) :
    g.sequence = (completions log).length ∧
    (∀ tier, LastOf (completions log) tier (g.lastUpdate tier)) ∧
    (∀ a b u v, a ≠ b → g.lastUpdate a = some u → g.lastUpdate b = some v →
      u.sequence ≠ v.sequence ∧ (u.sequence < v.sequence →
        ∃ earlier between later, completions log = earlier ++ a :: (between ++ b :: later) ∧
          a ∉ between ++ b :: later ∧ b ∉ later)) ∧
    (∀ tier, (g.tiers.get tier).listeners = audience tier log) ∧
    g.journal = reports (calls log) ∧
    (∀ op : Operation κ, op.refreshEvents g = [] →
      (finalState (op.run g)).sequence = g.sequence ∧
      (finalState (op.run g)).journal = g.journal ∧
      ∀ tier, ((finalState (op.run g)).tiers.get tier).listeners =
        (g.tiers.get tier).listeners) ∧
    (∀ taken tier, Settles taken tier g) ∧
    PollOrder g := by
  have hfollows := followsLog_logged h
  refine ⟨hfollows.sequence, fun tier => (hfollows.tiers tier).lastUpdate, ?_,
    fun tier => (hfollows.tiers tier).listeners, hfollows.journal, ?_,
    settles_of_tablesKept hfollows.tablesKept, pollOrder_of_followsLog hfollows⟩
  · -- of two tiers with a record, the one with the smaller ordinal was completed last before the
    -- other
    intro a b u v hne hu hv
    have hlast := (hfollows.tiers a).lastUpdate
    have hlast' := (hfollows.tiers b).lastUpdate
    rw [← lastUpdate, hu] at hlast
    rw [← lastUpdate, hv] at hlast'
    exact hlast.ordered hlast' hne
  · intro op hnone
    have hrun := followsLog_run hfollows op
    rw [hnone, List.append_nil] at hrun
    refine ⟨hrun.sequence.trans hfollows.sequence.symm,
      hrun.journal.trans hfollows.journal.symm, fun tier => ?_⟩
    exact (hrun.tiers tier).listeners.trans (hfollows.tiers tier).listeners.symm

/-- A listener that watches one name. -/
def watcher : ChangeLog := { names := ["P1"] }

/-- A gateway with one name to ask for, which its device knows, and a listener. -/
def watchedGateway : Gateway Device ChangeLog Change :=
  addVariable .fast "P1" (register watcher .fast (.new
    { immediateLimit := some 0
      values := ({} : Std.HashMap String String).insert "P1" "1.25" } {} 0 true))

/-- The refresh of the watched name is completed: the device replies to the one command. -/
private theorem completes_watchedGateway : Completes 0 .fast watchedGateway := by
  have hnames := VariableTable.add_empty "P1"
  have hsome : (watchedGateway.table .fast).names ≠ [] := by
    rw [show (watchedGateway.table .fast).names = ["P1"] from hnames.1]
    exact List.cons_ne_nil "P1" []
  have hcommands : (watchedGateway.table .fast).commands = ["P1"] := hnames.2
  -- the device holds back its reply, but has one
  have hanswer : watchedGateway.channel.link.answer (Device.heard (Utf8.encode "P1")) =
      (some (Device.answerNames watchedGateway.channel.link.values
        (Text.words (Device.heard (Utf8.encode "P1")))), watchedGateway.channel.link) := rfl
  obtain ⟨c, hwrite, -⟩ := Device.writeRead_device (c := watchedGateway.channel) rfl
    ⟨rfl, rfl⟩ hanswer (Device.answerNames_ne_nil _ _) (Nat.zero_le _)
  refine ⟨rfl, hsome, ?_⟩
  have hfree : (takeLocks (watchedGateway.locks.drop 0)).2 = true := rfl
  have hconnected : watchedGateway.isConnected = true := rfl
  have hrefresh : refreshUnlessSuppressed .fast (watchedGateway.locked 0) =
      refresh .fast watchedGateway := by
    rw [refreshUnlessSuppressed_eq]
    rfl
  rw [(updateFrom_of_free .fast hfree).1, hrefresh, refresh_eq, hcommands,
    if_neg (List.cons_ne_nil "P1" []), transactAll_cons, transact_of_answered hconnected hwrite]
  exact linkHeld_complete _ _ _ _

/-- The listener is registered, the name is added, and the refresh is completed. -/
private theorem logged_watchedGateway : Logged (.new watchedGateway.channel.link {} 0 true)
    [.registered watcher .fast, .completed (watchedGateway.notice 0 .fast)]
    (finalState (updateFrom 0 .fast watchedGateway)) := by
  have hregistered : Logged _ [.registered watcher .fast] watchedGateway :=
    (Logged.start.operation (.register watcher .fast)).operation (.addVariable .fast "P1")
  have hupdated := hregistered.operation (.update 0 .fast)
  rw [Operation.refreshEvents, updateEvents, if_pos completes_watchedGateway, Operation.run,
    finalState_bind_pure] at hupdated
  exact hupdated

/-- One completed refresh of the fast tier: its record has the first number, its listener has
    reported the change, and the slow tier has no record. -/
theorem logged_refreshes_watched : ∃ n, ∃ g : Gateway Device ChangeLog Change,
    Logged (.new watchedGateway.channel.link {} 0 true)
      [.registered watcher .fast, .completed n] g ∧
    g.sequence = 1 ∧ g.journal = (Listener.notify watcher n).2 ∧
    (∃ update, g.lastUpdate .fast = some update ∧ update.sequence = 1) ∧
    g.lastUpdate .slow = none := by
  obtain ⟨hsequence, hlast, -, -, hjournal, -⟩ := logged_refreshes logged_watchedGateway
  have hfast : LastOf ([] ++ [Tier.fast]) [Tier.fast][0] _ := hlast .fast
  refine ⟨_, _, logged_watchedGateway, hsequence, hjournal.trans (List.append_nil _),
    LastOf.getElem (by decide) (by decide) hfast, (hlast .slow).eq_none_iff.mpr ?_⟩
  show Tier.slow ∉ [Tier.fast]
  decide

end Run

end PmacPoll.Gateway
