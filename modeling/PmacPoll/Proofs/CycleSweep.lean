import PmacPoll.Scheduler
import PmacPoll.Proofs.Actions

/-!
# A cycle as a sweep over tiers

A cycle of the scheduler is one loop: it checks the connection, and then it visits the tiers that
are due, in order, as long as each visit lets it go on. `plan` are the tiers that are due, `sweep`
is the loop, and `cycle_eq` says that a cycle is nothing else.
-/

namespace PmacPoll.Scheduler

open Running

variable {σ κ ω : Type} [Transport σ] [Listener κ ω]

/-- The slow tier, if it is due. -/
def slowPlan (s : Scheduler) (now : Nat) : List Tier :=
  if due s.lastSlow now s.periods.slowMs then [.slow] else []

/-- The slower tiers that are due. -/
def duePlan (s : Scheduler) (now : Nat) : List Tier :=
  if due s.lastMedium now s.periods.mediumMs then .medium :: s.slowPlan now else s.slowPlan now

/-- The tiers that a cycle turns to on a connection that stands. -/
def plan (s : Scheduler) (now : Nat) : List Tier :=
  .preFast :: .fast :: s.duePlan now

/-- Visits some tiers in order, up to the first visit after which the cycle does not go on; gives
    the tiers that were visited. -/
def sweep : List Tier → Gateway.Action σ κ ω (List Tier)
  | [] => pure []
  | tier :: more => do
    if ← visit tier then
      let visited ← sweep more
      pure (tier :: visited)
    else pure [tier]

/-- Notes the time of a visit to one of the slower tiers. -/
def note (now : Nat) (s : Scheduler) : Tier → Scheduler
  | .medium => { s with lastMedium := some now }
  | .slow => { s with lastSlow := some now }
  | .preFast | .fast => s

/-- A cycle visits the tiers of its plan in their order, each once. -/
theorem plan_sublist (s : Scheduler) (now : Nat) : (s.plan now).Sublist Tier.all := by
  -- from the slow end on, a tier is either planned or left out
  have hslow : (s.slowPlan now).Sublist [.slow] := by
    unfold slowPlan
    split
    · exact .refl _
    · exact List.nil_sublist _
  have hdue : (s.duePlan now).Sublist [.medium, .slow] := by
    unfold duePlan
    split
    · exact hslow.cons_cons .medium
    · exact hslow.cons .medium
  exact (hdue.cons_cons .fast).cons_cons .preFast

/-! ### The loop -/

/-- What follows a sweep follows its first visit, if the cycle does not go on after that. -/
private theorem sweep_cons_bind {α : Type} (tier : Tier) (more : List Tier)
    (f : List Tier → Gateway.Action σ κ ω α) :
    sweep (tier :: more) >>= f = (do
      if ← visit tier then
        let visited ← sweep more
        f (tier :: visited)
      else f [tier]) := by
  rw [sweep, bind_assoc]
  apply bind_congr
  intro goesOn
  cases goesOn with
  | false => rfl
  | true =>
    show (sweep more >>= fun visited => pure (tier :: visited)) >>= f = _
    rw [bind_assoc]
    rfl

/-- The last part of a cycle is a sweep over the slow tier if that is due. -/
private theorem visitSlow_eq (now : Nat) (s : Scheduler) :
    (s.visitSlow now : Gateway.Action σ κ ω Scheduler) = (do
      let visited ← sweep (s.slowPlan now)
      pure (visited.foldl (note now) s)) := by
  unfold visitSlow slowPlan
  split
  · rw [sweep_cons_bind]
    apply bind_congr
    intro goesOn
    -- it is the last tier, whether the cycle goes on or not
    cases goesOn <;> rfl
  · rfl

/-- The part before is a sweep over the medium tier, and over the slow one after it. -/
private theorem visitDue_eq (now : Nat) (s : Scheduler) :
    (s.visitDue now : Gateway.Action σ κ ω Scheduler) = (do
      let visited ← sweep (s.duePlan now)
      pure (visited.foldl (note now) s)) := by
  have hslow : ((note now s .medium).visitSlow now : Gateway.Action σ κ ω Scheduler) = _ :=
    visitSlow_eq now _
  unfold visitDue duePlan
  split
  · rw [sweep_cons_bind]
    apply bind_congr
    -- the slow tier comes next unless the visit to the medium one lost the link
    intro goesOn
    cases goesOn with
    | false => rfl
    | true => exact hslow
  · exact visitSlow_eq now s

/-- **A cycle is a sweep.** It checks the connection, and if that stands it visits the tiers of its
    plan and notes the time of the visits to the slower ones. -/
theorem cycle_eq (now : Nat) (s : Scheduler) :
    (s.cycle now : Gateway.Action σ κ ω Scheduler) = (do
      if ← Gateway.checkConnection then
        let visited ← sweep (s.plan now)
        pure (visited.foldl (note now) s)
      else pure s) := by
  have hdue : (s.visitDue now : Gateway.Action σ κ ω Scheduler) = _ := visitDue_eq now s
  unfold cycle plan
  apply bind_congr
  intro connected
  -- the first two tiers are always due
  cases connected with
  | false => rfl
  | true =>
    show _ = sweep (.preFast :: .fast :: s.duePlan now) >>= fun visited =>
      pure (visited.foldl (note now) s)
    rw [sweep_cons_bind]
    apply bind_congr
    intro goesOn
    cases goesOn with
    | false => rfl
    | true =>
      show _ = sweep (.fast :: s.duePlan now) >>= fun visited =>
        pure ((.preFast :: visited).foldl (note now) s)
      rw [sweep_cons_bind]
      apply bind_congr
      intro goesOn
      cases goesOn with
      | false => rfl
      | true => exact hdue

section Checked

variable {now : Nat} {s : Scheduler} {g g₁ : Gateway σ κ ω}

/-- On a connection that stands a cycle is its sweep. -/
theorem cycle_of_connected (hcheck : Gateway.checkConnection g = .ok true g₁) :
    s.cycle now g =
      (sweep (s.plan now) >>= fun visited => pure (visited.foldl (note now) s)) g₁ := by
  rw [cycle_eq, bind_run, hcheck]
  rfl

/-- Without a connection a cycle does nothing. -/
theorem cycle_of_unconnected (hcheck : Gateway.checkConnection g = .ok false g₁) :
    s.cycle now g = .ok s g₁ := by
  rw [cycle_eq, bind_run, hcheck]
  rfl

/-- A check that stops stops the cycle. -/
theorem cycle_of_error {stop : Stop GatewayError}
    (hcheck : Gateway.checkConnection g = .error stop g₁) : s.cycle now g = .error stop g₁ := by
  rw [cycle_eq, bind_run, hcheck]

end Checked

end PmacPoll.Scheduler
