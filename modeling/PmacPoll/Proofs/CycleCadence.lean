import PmacPoll.Proofs.LoggedRefreshes

/-!
# When the slower tiers are polled

Each cycle of a scheduler has one reading of the clock, and the scheduler remembers of the medium
and of the slow tier the reading of the last cycle that turned to it, `last_rounds`. So two cycles
that turn to the same of them are at least its period apart, `pairwise_readings`, whatever became
of the refreshes; and a tier that was due stays due until a cycle has turned to it.

On a connection that stands a cycle turns to each tier that is due, unless it loses the link on a
quicker one, `Round.mem_tiers_iff`. The main result is `cycles_cadence`.
-/

namespace PmacPoll.Scheduler

open Running Gateway

variable {σ κ ω : Type}

/-! ### The tiers with a period of their own -/

/-- Is the tier polled in some cycles only? -/
def IsTimed (tier : Tier) : Prop := tier = .medium ∨ tier = .slow

/-- The period of a tier, in nanoseconds as the clock reads. -/
def period (p : Periods) : Tier → Nat
  | .preFast | .fast => p.fastMs * 1000000
  | .medium => p.mediumMs * 1000000
  | .slow => p.slowMs * 1000000

/-- What a scheduler remembers of a tier. -/
def last (s : Scheduler) : Tier → Option Nat
  | .preFast | .fast => none
  | .medium => s.lastMedium
  | .slow => s.lastSlow

/-- Is the tier due? -/
def isDue (s : Scheduler) (now : Nat) : Tier → Bool
  | .preFast | .fast => true
  | .medium => due s.lastMedium now s.periods.mediumMs
  | .slow => due s.lastSlow now s.periods.slowMs

variable {s s' : Scheduler} {now : Nat} {tier : Tier}

/-- A tier is due if its period has passed since the last time, or if there was none. -/
private theorem isDue_iff (htimed : IsTimed tier) (hpast : ∀ earlier ∈ s.last tier, earlier ≤ now) :
    s.isDue now tier = true ↔
      ∀ earlier ∈ s.last tier, earlier + period s.periods tier ≤ now := by
  -- a tier is due if it was never turned to, or if that is long enough ago
  have hdue : ∀ (last : Option Nat) (periodMs : Nat), (∀ earlier ∈ last, earlier ≤ now) →
      (due last now periodMs = true ↔ ∀ earlier ∈ last, earlier + periodMs * 1000000 ≤ now) := by
    intro last periodMs hpast
    cases last with
    | none => simp [due]
    | some earlier =>
      have hle : earlier ≤ now := hpast earlier rfl
      simp only [due, decide_eq_true_eq, Option.mem_def, Option.some.injEq, forall_eq']
      omega
  rcases htimed with rfl | rfl
  · -- both tiers are due by the same rule, each for its own reading and period
    exact hdue s.lastMedium s.periods.mediumMs hpast
  · exact hdue s.lastSlow s.periods.slowMs hpast

/-- What is due stays so as time goes on. -/
private theorem isDue_mono {later : Nat} (hlater : now ≤ later) (hdue : s.isDue now tier = true) :
    s.isDue later tier = true := by
  have hmono : ∀ (last : Option Nat) (periodMs : Nat), due last now periodMs = true →
      due last later periodMs = true := by
    intro last periodMs hdue
    cases last with
    | none => rfl
    | some earlier =>
      simp only [due, decide_eq_true_eq] at hdue ⊢
      omega
  -- the quick tiers are always due
  cases tier with
  | preFast | fast => rfl
  | medium => exact hmono _ _ hdue
  | slow => exact hmono _ _ hdue

/-- A cycle plans for the tiers that are due. -/
private theorem mem_plan_iff : tier ∈ s.plan now ↔ s.isDue now tier = true := by
  unfold plan duePlan slowPlan isDue
  cases tier <;> split <;> split <;> simp_all

/-- What is noted of a tier is the reading, if it is among those visited. -/
private theorem foldl_note (htimed : IsTimed tier) (tiers : List Tier) :
    (tiers.foldl (note now) s).last tier = (if tier ∈ tiers then some now else s.last tier) ∧
      (tiers.foldl (note now) s).periods = s.periods := by
  induction tiers generalizing s with
  | nil => exact ⟨rfl, rfl⟩
  | cons first more ih =>
    obtain ⟨hlast, hperiods⟩ := ih (s := note now s first)
    rw [List.foldl_cons, hlast, hperiods]
    rcases htimed with rfl | rfl <;> cases first <;> simp [note, last]

/-! ### One cycle -/

section Rounds

variable [Transport σ] [Listener κ ω]

/-- A sweep comes to its end and tells of the tiers that it refreshed, or it waits for somebody. -/
private theorem sweep_run (tiers : List Tier) (g : Gateway σ κ ω) :
    (∃ g', sweep tiers g = .ok ((attempts linkHeld tiers g).map Prod.fst) g') ∨
      ∃ g', sweep tiers g = .error .unfinished g' := by
  induction tiers generalizing g with
  | nil => exact .inl ⟨g, rfl⟩
  | cons first more ih =>
    have hgoesOn := goesOn_visitTo first g
    rw [sweep, bind_run, attempts]
    rcases visit_visitTo first g with ⟨-, hvisit⟩ | ⟨-, hvisit⟩
    · -- the sweep goes on just if the refresh kept the link
      rw [hvisit, hgoesOn]
      cases linkHeld (outcome (update first g)) with
      | false => exact .inl ⟨_, rfl⟩
      | true =>
        show (∃ g', (sweep more >>= fun visited => pure (first :: visited)) _ = _) ∨
          ∃ g', (sweep more >>= fun visited => pure (first :: visited)) _ = _
        rw [bind_run]
        rcases ih (visitTo first g).gateway with ⟨g', hmore⟩ | ⟨g', hmore⟩
        · rw [hmore]
          exact .inl ⟨g', rfl⟩
        · rw [hmore]
          exact .inr ⟨g', rfl⟩
    · rw [hvisit]
      exact .inr ⟨_, rfl⟩

/-- Of tiers in their order, one is attempted unless the refresh of a quicker one is the last. -/
private theorem mem_attempts {goesOn : Except (Stop GatewayError) Unit → Bool} {tiers : List Tier}
    (hsorted : tiers.Pairwise (· < ·)) (hmem : tier ∈ tiers) {g : Gateway σ κ ω}
    (hheld : ∀ attempt ∈ attempts goesOn tiers g, attempt.1 < tier →
      goesOn (outcome (update attempt.1 attempt.2)) = true) :
    tier ∈ (attempts goesOn tiers g).map Prod.fst := by
  induction tiers generalizing g with
  | nil => exact nomatch hmem
  | cons first more ih =>
    rw [attempts] at hheld ⊢
    rw [List.map_cons]
    obtain ⟨hfirst, hmore⟩ := List.pairwise_cons.mp hsorted
    rcases List.mem_cons.mp hmem with rfl | hlater
    · exact List.mem_cons_self
    · -- the first tier is quicker, so what its refresh comes to lets the others follow
      have hgoesOn := hheld (first, g) List.mem_cons_self (hfirst tier hlater)
      rw [if_pos hgoesOn] at hheld ⊢
      exact List.mem_cons_of_mem _ (ih hmore hlater
        fun attempt hattempt => hheld attempt (List.mem_cons_of_mem _ hattempt))

/-- A cycle: the scheduler that begins it, its reading of the clock, and the gateway that it
    finds. -/
structure Round (σ κ ω : Type) where
  scheduler : Scheduler
  now : Nat
  found : Gateway σ κ ω

namespace Round

/-- What the cycle comes to. -/
def run (r : Round σ κ ω) : EStateM.Result (Stop GatewayError) (Gateway σ κ ω) Scheduler :=
  r.scheduler.cycle r.now r.found

/-- The refreshes that it attempts. -/
def attempts (r : Round σ κ ω) : List (Tier × Gateway σ κ ω) :=
  cycleAttempts r.scheduler r.now r.found

/-- The tiers that it turns to. -/
def tiers (r : Round σ κ ω) : List Tier :=
  r.attempts.map Prod.fst

variable {r : Round σ κ ω}

/-- The tiers that a cycle turns to were due. -/
private theorem isDue_of_mem (h : tier ∈ r.tiers) : r.scheduler.isDue r.now tier = true := by
  obtain ⟨tiers, hplan, hattempts⟩ := cycleAttempts_eq r.scheduler r.now r.found
  rw [Round.tiers, attempts, hattempts] at h
  have hmem : tier ∈ tiers := (map_fst_attempts linkHeld tiers _).subset h
  -- without a connection there are none
  rcases hplan with rfl | rfl
  · exact mem_plan_iff.mp hmem
  · exact absurd hmem List.not_mem_nil

/-- On a connection that stands a tier that is due is attempted, unless a quicker one has lost the
    link. -/
theorem mem_tiers_iff {g : Gateway σ κ ω} (hcheck : checkConnection r.found = .ok true g)
    (hheld : ∀ attempt ∈ r.attempts, attempt.1 < tier →
      linkHeld (outcome (update attempt.1 attempt.2)) = true) :
    tier ∈ r.tiers ↔ r.scheduler.isDue r.now tier = true := by
  refine ⟨isDue_of_mem, fun hdue => ?_⟩
  have hattempts : r.attempts = Gateway.attempts linkHeld (r.scheduler.plan r.now) g := by
    rw [attempts, cycleAttempts, hcheck]
  have hsorted : (r.scheduler.plan r.now).Pairwise (· < ·) :=
    List.Pairwise.sublist (plan_sublist _ _) (by decide)
  rw [hattempts] at hheld
  rw [tiers, hattempts]
  exact mem_attempts hsorted (mem_plan_iff.mpr hdue) hheld

/-- A cycle comes to its end and notes its reading for the tiers that it turned to, or it waits for
    somebody. -/
private theorem run_eq (r : Round σ κ ω) :
    (∃ g', r.run = .ok (r.tiers.foldl (note r.now) r.scheduler) g') ∨
      ∃ g', r.run = .error .unfinished g' := by
  rw [tiers, attempts, cycleAttempts]
  -- without a connection nothing is noted, and with one what was visited is
  cases hcheck : checkConnection r.found with
  | error stop g₁ =>
    have hrun : r.run = .error stop g₁ := cycle_of_error hcheck
    cases stop with
    | failed cause => exact absurd hcheck (ensureConnected_ne_failed r.found g₁ cause)
    | unfinished => exact .inr ⟨g₁, hrun⟩
  | ok stands g₁ =>
    cases stands with
    | false => exact .inl ⟨g₁, cycle_of_unconnected hcheck⟩
    | true =>
      have hrun : r.run = _ := cycle_of_connected hcheck
      rw [hrun, bind_run]
      rcases sweep_run (r.scheduler.plan r.now) g₁ with ⟨g', hsweep⟩ | ⟨g', hsweep⟩
      · rw [hsweep]
        exact .inl ⟨g', rfl⟩
      · rw [hsweep]
        exact .inr ⟨g', rfl⟩

/-- What a scheduler remembers after a cycle is the reading at the tiers that it turned to. -/
private theorem scheduler_of_ok {s' : Scheduler} {g' : Gateway σ κ ω} (h : r.run = .ok s' g') :
    s' = r.tiers.foldl (note r.now) r.scheduler := by
  rcases r.run_eq with ⟨g₁, hrun⟩ | ⟨g₁, hrun⟩
  · exact (EStateM.Result.ok.inj (h.symm.trans hrun)).1
  · cases h.symm.trans hrun

end Round

/-! ### Successive cycles -/

/-- The cycles of a scheduler that has just been made, at readings of a clock that does not go back.
    What happens to the gateway in between is left open. -/
inductive Rounds (periods : Periods) : List (Round σ κ ω) → Scheduler → Prop where
  | start : Rounds periods [] { periods }
  | cycle {rounds : List (Round σ κ ω)} {s s' : Scheduler} {g' : Gateway σ κ ω} (now : Nat)
      (found : Gateway σ κ ω) : Rounds periods rounds s → (∀ r ∈ rounds, r.now ≤ now) →
      s.cycle now found = .ok s' g' → Rounds periods (rounds ++ [⟨s, now, found⟩]) s'

/-- The readings of the cycles that turned to a tier. -/
def readings (tier : Tier) (rounds : List (Round σ κ ω)) : List Nat :=
  (rounds.filter fun r => tier ∈ r.tiers).map Round.now

variable {periods : Periods} {rounds : List (Round σ κ ω)} {r : Round σ κ ω}

/-- The last of several cycles adds its reading if it turned to the tier. -/
private theorem readings_append_singleton (tier : Tier) (rounds : List (Round σ κ ω))
    (r : Round σ κ ω) : readings tier (rounds ++ [r]) =
      readings tier rounds ++ if tier ∈ r.tiers then [r.now] else [] := by
  rw [readings, List.filter_append, List.map_append, List.filter_cons, List.filter_nil]
  by_cases h : tier ∈ r.tiers
  · rw [if_pos (decide_eq_true h), if_pos h]
    rfl
  · rw [if_neg (by simpa using h), if_neg h]
    rfl

/-- A scheduler remembers the last cycle that turned to a tier. -/
theorem last_rounds (htimed : IsTimed tier) (h : Rounds periods rounds s) :
    s.last tier = (readings tier rounds).getLast? ∧ s.periods = periods := by
  induction h with
  | start => rcases htimed with rfl | rfl <;> exact ⟨rfl, rfl⟩
  -- each cycle that turned to the tier writes its reading down over the earlier one
  | @cycle rounds s s' g' now found _ _ hrun ih =>
    have hscheduler := Round.scheduler_of_ok (r := ⟨s, now, found⟩) hrun
    obtain ⟨hlast, hperiods⟩ : _ ∧ (List.foldl (note now) s _).periods = s.periods :=
      foldl_note htimed (Round.tiers ⟨s, now, found⟩)
    rw [hscheduler, hlast, hperiods, readings_append_singleton]
    refine ⟨?_, ih.2⟩
    split
    · rw [List.getLast?_append]
      rfl
    · rw [List.append_nil, ih.1]

/-- The readings of cycles so far are not in the future. -/
private theorem le_of_mem_readings (hpast : ∀ r ∈ rounds, r.now ≤ now) {earlier : Nat}
    (h : earlier ∈ readings tier rounds) : earlier ≤ now := by
  obtain ⟨r, hr, rfl⟩ := List.mem_map.mp h
  exact hpast r (List.mem_filter.mp hr).1

/-- A tier is due for the next cycle if its period has passed since the last one that turned to
    it. -/
private theorem isDue_rounds (htimed : IsTimed tier) (h : Rounds periods rounds s)
    (hpast : ∀ r ∈ rounds, r.now ≤ now) : s.isDue now tier = true ↔
      ∀ earlier ∈ (readings tier rounds).getLast?, earlier + period periods tier ≤ now := by
  obtain ⟨hlast, hperiods⟩ := last_rounds htimed h
  rw [isDue_iff htimed, hlast, hperiods]
  intro earlier hearlier
  rw [hlast] at hearlier
  exact le_of_mem_readings hpast (List.mem_of_getLast? hearlier)

/-- The next cycle that turns to a tier is a period after all earlier ones that did. -/
private theorem pairwise_readings_snoc (htimed : IsTimed tier) (h : Rounds periods rounds s)
    (hpast : ∀ r ∈ rounds, r.now ≤ now) (found : Gateway σ κ ω)
    (hspaced : (readings tier rounds).Pairwise fun a b => a + period periods tier ≤ b) :
    (readings tier (rounds ++ [⟨s, now, found⟩])).Pairwise
      fun a b => a + period periods tier ≤ b := by
  rw [readings_append_singleton]
  split
  · -- the tier was due, so its period has passed since its last reading
    next hmem =>
    have hdue := (isDue_rounds htimed h hpast).mp (Round.isDue_of_mem hmem)
    refine List.pairwise_append.mpr ⟨hspaced, List.pairwise_singleton _ _, fun a ha b hb => ?_⟩
    rw [List.mem_singleton.mp hb]
    show a + period periods tier ≤ now
    -- the last of them is the latest
    cases hlast : (readings tier rounds).getLast? with
    | none =>
      rw [List.getLast?_eq_none_iff.mp hlast] at ha
      exact nomatch ha
    | some z =>
      have hz : z + period periods tier ≤ now := hdue z hlast
      obtain ⟨init, hsplit⟩ := List.getLast?_eq_some_iff.mp hlast
      rw [hsplit] at ha hspaced
      rcases List.mem_append.mp ha with hinit | hend
      · have haz := (List.pairwise_append.mp hspaced).2.2 a hinit z List.mem_cons_self
        omega
      · rw [List.mem_singleton.mp hend]
        exact hz
  · rw [List.append_nil]
    exact hspaced

/-- Any two cycles that turned to a tier are at least its period apart. -/
theorem pairwise_readings (htimed : IsTimed tier) (h : Rounds periods rounds s) :
    (readings tier rounds).Pairwise fun a b => a + period periods tier ≤ b := by
  induction h with
  | start => exact List.Pairwise.nil
  | cycle now found hrounds hpast _ ih => exact pairwise_readings_snoc htimed hrounds hpast found ih

/-- What a cycle does about the slower tiers, after some others. -/
structure Cadence (periods : Periods) (rounds : List (Round σ κ ω)) (r : Round σ κ ω) : Prop where
  /-- It does not fail. -/
  ends : (∃ s' g', r.run = .ok s' g') ∨ ∃ g', r.run = .error .unfinished g'
  /-- The tiers that it turns to are those that it refreshes, in their order. -/
  refreshed : finalState r.run =
    afterAttempts (finalState (checkConnection r.found)) r.attempts
  remembered : ∀ tier, IsTimed tier → r.scheduler.last tier = (readings tier rounds).getLast?
  /-- Of any two cycles that turn to a tier, one is at least a period after the other. -/
  spaced : ∀ tier, IsTimed tier → (readings tier (rounds ++ [r])).Pairwise
    fun a b => a + period periods tier ≤ b
  /-- Unless there is no connection, or it is lost on a quicker tier, the cycle turns to a tier just
      if there was no such cycle or its period has passed since the last one. -/
  due : ∀ tier, IsTimed tier → (∃ g, checkConnection r.found = .ok true g) →
    (∀ attempt ∈ r.attempts, attempt.1 < tier →
      linkHeld (outcome (update attempt.1 attempt.2)) = true) →
    (tier ∈ r.tiers ↔
      ∀ earlier ∈ (readings tier rounds).getLast?, earlier + period periods tier ≤ r.now)
  /-- What is remembered of a tier changes just if the cycle turns to it. -/
  noted : ∀ s' g', r.run = .ok s' g' → ∀ tier, IsTimed tier →
    s'.last tier = if tier ∈ r.tiers then some r.now else r.scheduler.last tier
  /-- A tier that was due and is not reached stays due. -/
  staysDue : ∀ s' g', r.run = .ok s' g' → ∀ tier, IsTimed tier → tier ∉ r.tiers →
    r.scheduler.isDue r.now tier = true → ∀ later, r.now ≤ later → s'.isDue later tier = true

/-- **The slower tiers keep their periods.** A scheduler is made with any periods, and its cycles
    find any gateways, whatever becomes of the refreshes, at readings of a clock that does not go
    back. Any two cycles that turn to the medium tier have readings that are at least its period
    apart, and likewise for the slow tier. The next cycle, be it one that never ends, turns to such
    a tier just if no cycle has done so before or the period has passed since the last one, unless
    it has no connection or loses it on a quicker tier; and then the tier stays due. -/
theorem cycles_cadence (h : Rounds periods rounds s) (hpast : ∀ r ∈ rounds, r.now ≤ now)
    (found : Gateway σ κ ω) : Cadence periods rounds ⟨s, now, found⟩ := by
  have hnoted : ∀ s' g', Round.run ⟨s, now, found⟩ = .ok s' g' → ∀ tier, IsTimed tier →
      (s'.last tier = if tier ∈ Round.tiers ⟨s, now, found⟩ then some now else s.last tier) ∧
        s'.periods = s.periods := by
    intro s' g' hrun tier htimed
    rw [Round.scheduler_of_ok hrun]
    exact foldl_note htimed _
  refine ⟨(Round.run_eq _).imp_left fun ⟨g', hrun⟩ => ⟨_, g', hrun⟩,
    finalState_cycle s now found, fun tier htimed => (last_rounds htimed h).1,
    fun tier htimed => ?_, ?_, fun s' g' hrun tier htimed => (hnoted s' g' hrun tier htimed).1, ?_⟩
  · -- what there is to say of the last cycle follows from that of those before
    exact pairwise_readings_snoc htimed h hpast found (pairwise_readings htimed h)
  · rintro tier htimed ⟨g, hcheck⟩ hheld
    rw [Round.mem_tiers_iff hcheck hheld]
    exact isDue_rounds htimed h hpast
  · -- a cycle that did not turn to the tier did not take it off its list
    intro s' g' hrun tier htimed hnot hdue later hlater
    obtain ⟨hlast, hperiods⟩ := hnoted s' g' hrun tier htimed
    rw [if_neg hnot] at hlast
    -- neither what is remembered nor the period has changed
    have hlater := isDue_mono hlater hdue
    rcases htimed with rfl | rfl
    · have hmedium : s'.lastMedium = s.lastMedium := hlast
      rw [isDue, hmedium, hperiods]
      exact hlater
    · have hslow : s'.lastSlow = s.lastSlow := hlast
      rw [isDue, hslow, hperiods]
      exact hlater

/-- A gateway that is connected and has nothing to ask for. -/
def readyGateway : Gateway Device ChangeLog Change := .new {} {} 0 true

/-- Two seconds after the first cycle the medium tier is due again, and the slow one is not. -/
theorem cycles_cadence_ready : ∃ first : Round Device ChangeLog Change, ∃ s, Rounds {} [first] s ∧
    first.tiers = Tier.all ∧
    .medium ∈ Round.tiers ⟨s, first.now + 2000000000, readyGateway⟩ ∧
    .slow ∉ Round.tiers ⟨s, first.now + 2000000000, readyGateway⟩ := by
  have hrounds : Rounds {} ([] ++ [⟨{}, 7, readyGateway⟩]) ⟨{}, some 7, some 7⟩ :=
    Rounds.start.cycle 7 readyGateway (List.forall_mem_nil _) rfl
  have hcadence : Cadence {} _ ⟨_, 2000000007, readyGateway⟩ :=
    cycles_cadence hrounds (by simp) readyGateway
  have hheld : ∀ attempt ∈ Round.attempts ⟨⟨{}, some 7, some 7⟩, 2000000007, readyGateway⟩,
      linkHeld (outcome (update attempt.1 attempt.2)) = true :=
    List.all_eq_true.mp rfl
  have hmedium := hcadence.due .medium (.inl rfl) ⟨_, rfl⟩ fun a ha _ => hheld a ha
  have hslow := hcadence.due .slow (.inr rfl) ⟨_, rfl⟩ fun a ha _ => hheld a ha
  have hlast : ∀ tier, IsTimed tier →
      (readings tier [⟨{}, 7, readyGateway⟩]).getLast? = some 7 := by
    rintro tier (rfl | rfl) <;> rfl
  -- two seconds are the period of the one tier, and less than that of the other
  refine ⟨⟨{}, 7, readyGateway⟩, _, hrounds, rfl, hmedium.mpr ?_, mt hslow.mp ?_⟩
  · intro earlier hearlier
    obtain rfl := Option.some.inj ((hlast .medium (.inl rfl)).symm.trans hearlier)
    decide
  · intro hall
    exact absurd (hall 7 (hlast .slow (.inr rfl))) (by decide)

end Rounds

end PmacPoll.Scheduler
