import PmacPoll.Proofs.LinkOrder
import PmacPoll.Proofs.RefreshAtomicity

/-!
# A cycle keeps to its link

The error of a refresh is one of the link just if the refresh leaves no connection,
`isLinkFailure_iff_of_updateFrom`, and a refresh that has asked for something and gave no error
leaves one, `connected_of_updateFrom`. So the loop of a cycle, which looks at the error only, stops
as soon as a visit has lost the connection and never before, `swept_sweep`.

The main result is `cycle_followsLink`.
-/

namespace PmacPoll

open Running

variable {σ κ ω : Type}

/-- A failure of the link is one, whatever its cause. -/
private theorem GatewayError.isLinkFailure_ofLink (cause : LinkError) :
    (GatewayError.ofLink cause).isLinkFailure = true := by
  cases cause <;> rfl

namespace Gateway

variable [Transport σ] [Listener κ ω] {g g' : Gateway σ κ ω} {taken : Nat} {tier : Tier}

/-! ### Refreshes and the connection -/

omit [Listener κ ω] in
/-- What ends the commands of a refresh is a failure of the link. -/
theorem isLinkFailure_of_transactAll {commands : List String} {e : GatewayError}
    (h : transactAll commands g = .error (.failed e) g') : e.isLinkFailure = true := by
  rcases transactAll_failed h with ⟨-, rfl, -⟩ | ⟨-, -, handed, cause, -, -, rfl, -⟩
  · rfl
  · exact GatewayError.isLinkFailure_ofLink cause

/-- A refresh without an error leaves the connection as it was. -/
private theorem linkState_of_updateFrom (h : updateFrom taken tier g = .ok () g') :
    g'.linkState = g.linkState := by
  obtain ⟨g₁, ⟨locks, count, rfl⟩, hcases⟩ := updateFrom_ok h
  rcases hcases with ⟨-, rfl⟩ | ⟨-, -, started, rfl⟩ | ⟨-, -, g₂, started, replies, hall, -, rfl⟩
  · rfl
  · rfl
  · exact (transactAll_ok hall).2.2.1

/-- A refresh that is carried out, has something to ask for and gives no error finds a connection
    and leaves it. -/
theorem connected_of_updateFrom (h : updateFrom taken tier g = .ok () g')
    (hcarried : (g.suppresses tier).1 = false) (hcommands : (g.table tier).commands ≠ []) :
    g'.linkState = .connected := by
  rw [linkState_of_updateFrom h]
  obtain ⟨g₁, ⟨locks, count, rfl⟩, hcases⟩ := updateFrom_ok h
  rcases hcases with ⟨hsuppressed, -⟩ | ⟨-, hnone, -⟩ | ⟨-, -, g₂, started, replies, hall, -⟩
  · exact absurd (hsuppressed.symm.trans hcarried) (by decide)
  · exact absurd hnone hcommands
  · have hconnected := isConnected_of_transactAll hall hcommands
    exact (isConnected_iff g).mp hconnected

/-- The error of a refresh is one of the link just if the refresh leaves no connection. -/
theorem isLinkFailure_iff_of_updateFrom {e : GatewayError} (hsettled : g.Settled)
    (h : updateFrom taken tier g = .error (.failed e) g') :
    e.isLinkFailure = true ↔ g'.linkState = .disconnected := by
  constructor
  · intro hlink
    exact (linkLost_of_updateFrom hsettled h hlink).linkState
  · intro hgone
    obtain ⟨g₁, ⟨locks, count, rfl⟩, hcases⟩ := updateFrom_failed h
    rcases hcases with ⟨g₂, started, hall, rfl⟩ | ⟨g₂, started, replies, hall, herror, rfl⟩
    · exact isLinkFailure_of_transactAll hall
    · -- with all replies there, and one at least that is wrong, the connection stands
      obtain ⟨hreplies, -, hstate, -⟩ := transactAll_ok hall
      have hcommands : (g.table tier).commands ≠ [] := by
        intro hnone
        rw [hnone, List.map_eq_nil_iff] at hreplies
        rw [hreplies] at herror
        exact nomatch herror
      have hconnected := isConnected_of_transactAll hall hcommands
      have hstands : g.linkState = .connected := (isConnected_iff g).mp hconnected
      have hsame : g.linkState = .disconnected := hstate.symm.trans hgone
      exact nomatch hstands.symm.trans hsame

/-- What a refresh tells of the connection. -/
structure Classified (taken : Nat) (tier : Tier) (g : Gateway σ κ ω) : Prop where
  /-- Its error is one of the link just if it leaves no connection. -/
  failed : ∀ e g', updateFrom taken tier g = .error (.failed e) g' →
    (e.isLinkFailure = true ↔ g'.linkState = .disconnected)
  /-- If it is carried out for some names and gives no error, it leaves a connection. -/
  done : ∀ g', updateFrom taken tier g = .ok () g' → (g.suppresses tier).1 = false →
    (g.table tier).names ≠ [] → g'.linkState = .connected

/-- Every gateway that clients can be faced with has the commands of its names. -/
theorem tablesKept_of_reachable (h : Reachable g) : g.TablesKept := by
  induction h with
  | new link config locks connected => exact tablesKept_new link config locks connected
  | step op _ hend ih =>
    obtain ⟨deeds, hdeeds⟩ := performs_run op hend
    exact hdeeds.tablesKept ih
  | outside link locks _ ih => exact ih

/-- Every refresh is classified on a gateway that clients can be faced with. -/
private theorem classified_of_reachable (h : Reachable g) (taken : Nat) (tier : Tier) :
    Classified taken tier g where
  failed _ _ hfailed := isLinkFailure_iff_of_updateFrom (settled_of_reachable h) hfailed
  done _ hok hcarried hnames :=
    connected_of_updateFrom hok hcarried ((tablesKept_of_reachable h).commands_ne_nil hnames)

/-! ### Visits -/

/-- What came of a visit to a tier. -/
structure Visit (σ κ ω : Type) where
  tier : Tier
  /-- What the refresh came to. -/
  outcome : Except (Stop GatewayError) Unit
  /-- The gateway as the refresh left it. -/
  gateway : Gateway σ κ ω

/-- Does a cycle go on after the visit? A reply of the wrong length and an error that the controller
    reports are no reason to stop. -/
def Visit.goesOn (v : Visit σ κ ω) : Bool :=
  match v.outcome with
  | .ok () => true
  | .error (.failed cause) => !cause.isLinkFailure
  | .error .unfinished => false

/-- The visit to a tier of a gateway. -/
def visitTo (tier : Tier) (g : Gateway σ κ ω) : Visit σ κ ω where
  tier := tier
  outcome := outcome (update tier g)
  gateway := finalState (update tier g)

/-- Some visits one after another, each to the gateway that the one before has left. -/
def Visited (g : Gateway σ κ ω) : List (Visit σ κ ω) → Gateway σ κ ω → Prop
  | [], g' => g' = g
  | v :: more, g' => v = visitTo v.tier g ∧ Visited v.gateway more g'

/-- The visits of a sweep over some tiers. -/
structure Swept (tiers : List Tier) (g : Gateway σ κ ω) (visits : List (Visit σ κ ω))
    (g' : Gateway σ κ ω) : Prop where
  visited : Visited g visits g'
  /-- The first few tiers are visited, in their order. -/
  inOrder : visits.map Visit.tier <+: tiers
  classified : ∀ v ∈ visits, ∀ e, v.outcome = .error (.failed e) →
    (e.isLinkFailure = true ↔ v.gateway.linkState = .disconnected)
  /-- Nothing follows a visit that leaves no connection. -/
  stops : ∀ before v after, visits = before ++ v :: after →
    v.gateway.linkState = .disconnected → after = []
  /-- No tier is left out unless the last visit lost the connection, or has not ended. -/
  complete : (∀ v ∈ visits.getLast?, v.goesOn = true) → visits.map Visit.tier = tiers

/-- A visit ends, and tells whether the cycle goes on, or it does not end. -/
theorem visit_visitTo (tier : Tier) (g : Gateway σ κ ω) :
    ((visitTo tier g).outcome ≠ .error .unfinished ∧
      Scheduler.visit tier g = .ok (visitTo tier g).goesOn (visitTo tier g).gateway) ∨
    ((visitTo tier g).outcome = .error .unfinished ∧
      Scheduler.visit tier g = .error .unfinished (visitTo tier g).gateway) := by
  simp only [Scheduler.visit, attempt, bind_run]
  unfold visitTo Visit.goesOn
  cases update tier g with
  | ok u g' => exact Or.inl ⟨by simp [outcome], rfl⟩
  | error stop g' =>
    cases stop with
    | failed cause => exact Or.inl ⟨by simp [outcome], rfl⟩
    | unfinished => exact Or.inr ⟨rfl, rfl⟩

/-- A visit that has ended leaves a gateway that clients can be faced with. -/
private theorem reachable_visitTo (h : Reachable g)
    (hended : (visitTo tier g).outcome ≠ .error .unfinished) :
    (visitTo tier g).gateway.Reachable := by
  -- the refresh ended, and what an ended operation leaves can be faced by clients
  have hend : ended (update tier g) = some (visitTo tier g).gateway := by
    unfold visitTo at hended ⊢
    cases hrun : update tier g with
    | ok u g' => rfl
    | error stop g' =>
      cases stop with
      | failed cause => rfl
      | unfinished => rw [hrun] at hended; exact absurd rfl hended
  have hstep : ended ((Operation.update 0 tier).run g) = some (visitTo tier g).gateway := by
    rw [← hend]
    exact ended_bind_pure (updateFrom 0 tier) (fun _ => Answer.done) g
  exact .step (.update 0 tier) h hstep

/-- A visit after which a cycle goes on leaves the connection standing. -/
private theorem connected_visitTo (h : Reachable g) (hconnected : g.linkState = .connected)
    (hgoesOn : (visitTo tier g).goesOn = true) :
    (visitTo tier g).gateway.linkState = .connected := by
  have hended : (visitTo tier g).outcome ≠ .error .unfinished := by
    intro hunfinished
    rw [Visit.goesOn, hunfinished] at hgoesOn
    exact nomatch hgoesOn
  have hsettled := settled_of_reachable (reachable_visitTo h hended)
  unfold visitTo Visit.goesOn at *
  cases hrun : update tier g with
  -- without an error the connection is as it was
  | ok u g' => exact (linkState_of_updateFrom hrun).trans hconnected
  | error stop g' =>
    rw [hrun] at hgoesOn hsettled
    cases stop with
    | unfinished => exact nomatch hgoesOn
    | failed cause =>
      -- no error of the link, so it is not gone
      have hclass := (classified_of_reachable h 0 tier).failed cause g' hrun
      have hcause : cause.isLinkFailure = false := by simpa [outcome] using hgoesOn
      rw [hcause] at hclass
      have hstands : g'.linkState ≠ .disconnected := fun hgone => nomatch hclass.mpr hgone
      have hset : g'.linkState ≠ .connecting := hsettled
      show g'.linkState = .connected
      cases hstate : g'.linkState with
      | connected => rfl
      | disconnected => exact absurd hstate hstands
      | connecting => exact absurd hstate hset

/-- The error of a visit tells whether the visit lost the connection. -/
private theorem classified_visitTo (h : Reachable g) {e : GatewayError}
    (hfailed : (visitTo tier g).outcome = .error (.failed e)) :
    e.isLinkFailure = true ↔ (visitTo tier g).gateway.linkState = .disconnected := by
  unfold visitTo at *
  cases hrun : update tier g with
  | ok u g' => rw [hrun] at hfailed; exact nomatch hfailed
  | error stop g' =>
    rw [hrun] at hfailed
    obtain rfl := Except.error.inj hfailed
    exact (classified_of_reachable h 0 tier).failed e g' hrun

/-! ### Sweeps -/

/-- Without a tier nothing is visited. -/
theorem Swept.nil (g : Gateway σ κ ω) : Swept [] g [] g where
  visited := rfl
  inOrder := List.prefix_rfl
  classified := by simp
  stops := by simp
  complete _ := rfl

/-- A visit that the cycle does not go on after is the last one. -/
theorem Swept.single (h : Reachable g) (hstops : (visitTo tier g).goesOn = false)
    (more : List Tier) :
    Swept (tier :: more) g [visitTo tier g] (visitTo tier g).gateway where
  visited := ⟨rfl, rfl⟩
  inOrder := ⟨more, rfl⟩
  classified v hv e := by
    obtain rfl := List.mem_singleton.mp hv
    exact classified_visitTo h
  -- the only visit is the last one, and after that there is none
  stops before v after hcut _ := by
    rcases List.cons_eq_append_iff.mp hcut with ⟨-, hlast⟩ | ⟨rest, -, hnone⟩
    · exact (List.cons.inj hlast).2
    · simp at hnone
  -- it would have gone on
  complete hlast := by
    have hgoesOn := hlast (visitTo tier g) rfl
    rw [hstops] at hgoesOn
    exact nomatch hgoesOn

/-- Before the visits of a sweep there may be one that the cycle goes on after. -/
theorem Swept.cons {tiers : List Tier} {visits : List (Visit σ κ ω)} (h : Reachable g)
    (hconnected : g.linkState = .connected) (hgoesOn : (visitTo tier g).goesOn = true)
    (hmore : Swept tiers (visitTo tier g).gateway visits g') :
    Swept (tier :: tiers) g (visitTo tier g :: visits) g' where
  visited := ⟨rfl, hmore.visited⟩
  inOrder := (List.prefix_cons_inj tier).mpr hmore.inOrder
  classified v hv e := by
    rcases List.mem_cons.mp hv with rfl | hlater
    · exact classified_visitTo h
    · exact hmore.classified v hlater e
  stops before v after hcut hgone := by
    -- a visit that the cycle goes on after has not lost the connection
    rcases List.cons_eq_append_iff.mp hcut with ⟨-, hfirst⟩ | ⟨rest, -, hrest⟩
    · rw [(List.cons.inj hfirst).1] at hgone
      exact nomatch hgone.symm.trans (connected_visitTo h hconnected hgoesOn)
    · exact hmore.stops rest v after hrest hgone
  complete hlast := by
    have hall : visits.map Visit.tier = tiers := by
      apply hmore.complete
      intro v hv
      apply hlast v
      rw [List.getLast?_cons, Option.mem_def.mp hv]
      rfl
    show tier :: visits.map Visit.tier = tier :: tiers
    rw [hall]

/-- **A sweep stops with the link.** On a connection that stands it visits its tiers in order until
    a visit loses the connection; if each visit ends, so does the sweep. -/
theorem swept_sweep (tiers : List Tier) (h : Reachable g) (hconnected : g.linkState = .connected) :
    ∃ visits, Swept tiers g visits (finalState (Scheduler.sweep tiers g)) ∧
      ((∀ v ∈ visits, v.outcome ≠ .error .unfinished) →
        outcome (Scheduler.sweep tiers g) = .ok (visits.map Visit.tier)) := by
  induction tiers generalizing g with
  | nil => exact ⟨[], .nil g, fun _ => rfl⟩
  -- on the tiers that are left, from the gateway that the visit leaves
  | cons tier more ih =>
    simp only [Scheduler.sweep, bind_run]
    rcases visit_visitTo tier g with ⟨hended, hvisit⟩ | ⟨hunfinished, hvisit⟩
    · rw [hvisit]
      cases hgoesOn : (visitTo tier g).goesOn with
      -- the visit lost the link, and the sweep ends with it
      | false =>
        exact ⟨[visitTo tier g], .single h hgoesOn more, fun _ => rfl⟩
      | true =>
        obtain ⟨visits, hswept, hdone⟩ := ih (reachable_visitTo h hended)
          (connected_visitTo h hconnected hgoesOn)
        show ∃ visits, Swept (tier :: more) g visits (finalState
          ((Scheduler.sweep more >>= fun visited => pure (tier :: visited)) _)) ∧ _
        rw [finalState_bind_pure]
        refine ⟨visitTo tier g :: visits, .cons h hconnected hgoesOn hswept, fun hall => ?_⟩
        show outcome ((Scheduler.sweep more >>= fun visited => pure (tier :: visited)) _) = _
        rw [outcome_bind_pure, hdone fun v hv => hall v (List.mem_cons_of_mem _ hv)]
        rfl
    · rw [hvisit]
      -- the visit waits for a lock, and neither it nor the sweep comes to an end
      have hstops : (visitTo tier g).goesOn = false := by
        rw [Visit.goesOn, hunfinished]
      refine ⟨[visitTo tier g], .single h hstops more, fun hall => ?_⟩
      exact absurd hunfinished (hall _ List.mem_cons_self)

/-! ### Cycles -/

/-- What a cycle does, by what its check of the connection comes to. -/
structure CycleOrder (s : Scheduler) (now : Nat) (g : Gateway σ κ ω) : Prop where
  /-- Without a connection no tier is refreshed. -/
  unconnected : ∀ g₁, checkConnection g = .ok false g₁ → s.cycle now g = .ok s g₁
  /-- A check that does not end is all that the cycle does. -/
  unchecked : ∀ stop g₁, checkConnection g = .error stop g₁ → s.cycle now g = .error stop g₁
  /-- On a connection that stands the tiers of the plan are visited, each once and in the order of
      `Tier.all`, and the times of the visits are noted. -/
  connected : ∀ g₁, checkConnection g = .ok true g₁ →
    ∃ visits, Swept (s.plan now) g₁ visits (finalState (s.cycle now g)) ∧
      (visits.map Visit.tier).Sublist Tier.all ∧
      ((∀ v ∈ visits, v.outcome ≠ .error .unfinished) →
        outcome (s.cycle now g) = .ok ((visits.map Visit.tier).foldl (Scheduler.note now) s))

/-- A cycle on such a gateway keeps to the order of its plan. -/
private theorem cycleOrder_of_reachable (h : Reachable g) (s : Scheduler) (now : Nat) :
    CycleOrder s now g where
  unconnected _ := Scheduler.cycle_of_unconnected
  unchecked _ _ := Scheduler.cycle_of_error
  connected g₁ hcheck := by
    have hreachable : g₁.Reachable := by
      have hend : ended (Operation.checkConnection.run g) = some g₁ := by
        rw [← ended_of_ok hcheck]
        exact ended_bind_pure checkConnection Answer.connected g
      exact .step .checkConnection h hend
    have hstands : g₁.linkState = .connected := (connected_of_ensureConnected hcheck).mpr rfl
    -- the check has ended, so that the sweep begins on a gateway that can be faced
    obtain ⟨visits, hswept, hdone⟩ := swept_sweep (s.plan now) hreachable hstands
    have hcycle : s.cycle now g = _ := Scheduler.cycle_of_connected hcheck
    refine ⟨visits, ?_, hswept.inOrder.sublist.trans (s.plan_sublist now), fun hall => ?_⟩
    · rw [hcycle, finalState_bind_pure]
      exact hswept
    · rw [hcycle, outcome_bind_pure, hdone hall]
      rfl

/-- **A cycle keeps to its link.** For every gateway that clients can be faced with, over every
    transport: the error of a refresh is one of the link just if the refresh leaves no connection,
    and a refresh of some names without an error leaves one. So a cycle of any scheduler refreshes
    nothing without a connection; on one that stands it refreshes the tiers that are due in order,
    it ends with the first refresh that loses the connection, and no other error ends it. -/
theorem cycle_followsLink (h : Reachable g) :
    (∀ taken tier, Classified taken tier g) ∧ ∀ s now, CycleOrder s now g :=
  ⟨classified_of_reachable h, cycleOrder_of_reachable h⟩

/-- A gateway that takes an endpoint for connected that was never dialled, with one name to ask
    for. -/
def undialledPoller : Gateway Endpoint ChangeLog Change :=
  addVariable .fast "P1" (.new { host := "pmac" } {} 0 true)

/-- The first visit has nothing to ask for, the second one loses the connection, and the other two
    tiers are not visited. -/
theorem cycle_followsLink_undialled : ∃ visits,
    Swept [.preFast, .fast, .medium, .slow] undialledPoller visits
      (finalState (Scheduler.cycle 0 {} undialledPoller)) ∧
    visits.map Visit.tier = [.preFast, .fast] := by
  have hreachable : undialledPoller.Reachable :=
    .step (.addVariable .fast "P1") (.new { host := "pmac" } {} 0 true) rfl
  obtain ⟨visits, hswept, -, -⟩ :=
    ((cycle_followsLink hreachable).2 {} 0).connected undialledPoller rfl
  -- the prefast tier has no names, and the one name of the fast tier costs the connection
  have hidle : visitTo .preFast undialledPoller = ⟨.preFast, .ok (), undialledPoller⟩ := rfl
  have hlost : (visitTo .fast undialledPoller).gateway.linkState = .disconnected := by
    have hcommands : (undialledPoller.table .fast).commands = ["P1"] :=
      (VariableTable.add_empty "P1").2
    have hrefresh : refreshUnlessSuppressed .fast (undialledPoller.locked 0) =
        refresh .fast undialledPoller := by
      rw [refreshUnlessSuppressed_eq]
      rfl
    have hfree : (takeLocks (undialledPoller.locks.drop 0)).2 = true := rfl
    rw [visitTo, update, updateFrom_eq, if_pos hfree, hrefresh, refresh_eq, hcommands]
    rfl
  refine ⟨visits, hswept, ?_⟩
  -- there are two visits, no less and no more
  match visits, hswept with
  | [], hswept => exact absurd (hswept.complete (by simp)) (by decide)
  | [v], hswept =>
    obtain ⟨more, hplan⟩ := hswept.inOrder
    obtain ⟨hfirst, -⟩ := hswept.visited
    rw [(List.cons.inj hplan).1, hidle] at hfirst
    have hall := hswept.complete
    rw [hfirst] at hall
    exact absurd (hall (by decide)) (by decide)
  | v :: w :: rest, hswept =>
    obtain ⟨more, hplan⟩ := hswept.inOrder
    obtain ⟨hfirst, hsecond, -⟩ := hswept.visited
    obtain ⟨hpre, hlater⟩ := List.cons.inj hplan
    have hfast : w.tier = .fast := (List.cons.inj hlater).1
    rw [hpre, hidle] at hfirst
    rw [hfast, hfirst] at hsecond
    have hgone : w.gateway.linkState = .disconnected := by rw [hsecond]; exact hlost
    rw [hswept.stops [v] w rest rfl hgone]
    show [v.tier, w.tier] = _
    rw [hpre, hfast]

end Gateway

end PmacPoll
