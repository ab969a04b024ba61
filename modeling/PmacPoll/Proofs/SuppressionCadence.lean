import PmacPoll.Proofs.LoggedRefreshes

/-!
# Refreshes while status reads are suppressed

From a call of `suppress` on, and until the next call of it or of `reinstate`, the refreshes of a
gateway that get their locks are a list of `Request`s. The count that the gateway keeps is the
number of those of the fast tier, up to the width of its word, `Tallied`; as four divides what the
word wraps at, the remainder that decides is right after any number of them, `next_mod_iff`.

A request that is carried out is a refresh under the locks, and one that is left out is counted and
touches nothing else, `updateFrom_of_admitted`. The main result is `suppression_cadence`.
-/

namespace PmacPoll.Gateway

open Running

variable {σ κ ω : Type}

/-! ### Requests -/

/-- A refresh that is asked for: how many locks it holds already, its tier, and the gateway that it
    finds. -/
structure Request (σ κ ω : Type) where
  taken : Nat
  tier : Tier
  found : Gateway σ κ ω

namespace Request

/-- Does it get the locks that it needs? One that waits for a lock is not a request yet. -/
def isAdmitted (r : Request σ κ ω) : Bool :=
  (takeLocks (r.found.locks.drop r.taken)).2

/-- Does the gateway decide to carry it out? What that comes to, and what it comes to otherwise,
    says `updateFrom_of_admitted`. -/
def IsCarriedOut (r : Request σ κ ω) : Prop :=
  (r.found.suppresses r.tier).1 = false

end Request

/-- How many of some requests are of the fast tier. -/
def fastCalls (requests : List (Request σ κ ω)) : Nat :=
  requests.countP fun r => r.tier = .fast

/-- Requests in a row are counted in both parts. -/
@[simp] theorem fastCalls_append (requests later : List (Request σ κ ω)) :
    fastCalls (requests ++ later) = fastCalls requests + fastCalls later :=
  List.countP_append

/-- A request counts if it is of the fast tier. -/
private theorem fastCalls_singleton (r : Request σ κ ω) :
    fastCalls [r] = if r.tier = .fast then 1 else 0 := by
  rw [fastCalls, List.countP_singleton]
  simp only [decide_eq_true_eq]

/-- The requests among some refreshes. -/
def requestsOf (attempts : List (Tier × Gateway σ κ ω)) : List (Request σ κ ω) :=
  (attempts.map fun attempt => ⟨0, attempt.1, attempt.2⟩).filter Request.isAdmitted

section Runs

variable [Transport σ] [Listener κ ω]

/-- The requests of an operation. -/
def Operation.requests (op : Operation κ) (g : Gateway σ κ ω) : List (Request σ κ ω) :=
  match op with
  | .update taken tier => [⟨taken, tier, g⟩].filter Request.isAdmitted
  | .pollAll => requestsOf g.pollAttempts
  | _ => []

/-- Does the operation begin or end a suppression? -/
def Operation.switches : Operation κ → Bool
  | .suppress | .reinstate => true
  | _ => false

/-- What happens after the suppression of status reads, with its requests. -/
inductive Suppressed (start : Gateway σ κ ω) : List (Request σ κ ω) → Gateway σ κ ω → Prop where
  | start : Suppressed start [] start.suppress
  | operation {requests : List (Request σ κ ω)} {g : Gateway σ κ ω} (op : Operation κ) :
      op.switches = false → Suppressed start requests g →
      Suppressed start (requests ++ op.requests g) (finalState (op.run g))
  | cycle {requests : List (Request σ κ ω)} {g : Gateway σ κ ω} (now : Nat) (s : Scheduler) :
      Suppressed start requests g →
      Suppressed start (requests ++ requestsOf (cycleAttempts s now g)) (finalState (s.cycle now g))
  /-- Between two operations anything may happen on the link, and anybody may take or release an
      outside lock. -/
  | outside {requests : List (Request σ κ ω)} {g : Gateway σ κ ω} (link : σ) (locks : List Bool) :
      Suppressed start requests g →
      Suppressed start requests { g with channel := { g.channel with link }, locks }

end Runs

/-! ### The count -/

/-- Status reads are suppressed, and the count is that of `k` requests of the fast tier. -/
structure Counts (k : Nat) (g : Gateway σ κ ω) : Prop where
  suppressing : g.suppressing = true
  suppressCount : g.suppressCount = UInt32.ofNat k

/-- Each of some requests gets its locks and finds the count of those before it, of which `k` were
    there already. -/
def Paced : Nat → List (Request σ κ ω) → Prop
  | _, [] => True
  | k, r :: more => (r.isAdmitted = true ∧ Counts k r.found) ∧ Paced (k + fastCalls [r]) more

/-- After `k` requests of the fast tier, some more find the right counts and leave it so. -/
structure Tallied (k : Nat) (requests : List (Request σ κ ω)) (g : Gateway σ κ ω) : Prop where
  paced : Paced k requests
  counts : Counts (k + fastCalls requests) g

variable {k : Nat} {requests later : List (Request σ κ ω)} {g g' : Gateway σ κ ω}

/-- The remainder of the next count is right also after the word has wrapped. -/
theorem next_mod_iff (k : Nat) : (UInt32.ofNat k + 1) % fastDivisor = 0 ↔ 4 ∣ k + 1 := by
  rw [← UInt32.toNat_inj, UInt32.toNat_mod, UInt32.toNat_add, UInt32.toNat_ofNat']
  show (k % 2 ^ 32 + 1) % 2 ^ 32 % 4 = 0 ↔ _
  omega

/-- What is decided of a request depends on the requests that were counted, whatever tier it is
    of. -/
private theorem suppresses_of_counts (h : Counts k g) (tier : Tier) :
    ((g.suppresses tier).1 = false ↔ (tier = .preFast ∨ tier = .fast) ∧ 4 ∣ k + 1) ∧
      (g.suppresses tier).2 =
        { g with suppressCount := UInt32.ofNat (k + if tier = .fast then 1 else 0) } := by
  have hturn : ((UInt32.ofNat k + 1) % fastDivisor != 0) = false ↔ 4 ∣ k + 1 := by
    rw [← next_mod_iff k, bne_eq_false_iff_eq]
  have hsame : { g with suppressCount := UInt32.ofNat (k + 0) } = g := by
    rw [Nat.add_zero, ← h.suppressCount]
  unfold suppresses
  rw [if_pos h.suppressing, h.suppressCount]
  -- only the fast tier counts the request
  cases tier with
  | medium | slow => exact ⟨by simp, hsame.symm⟩
  | preFast => exact ⟨by simpa using hturn, hsame.symm⟩
  | fast =>
    refine ⟨by simpa using hturn, ?_⟩
    rw [if_pos rfl, UInt32.ofNat_add]
    rfl

/-- What is paced goes on from the count that it comes to. -/
theorem Paced.append (h : Paced k requests) (hlater : Paced (k + fastCalls requests) later) :
    Paced k (requests ++ later) := by
  induction requests generalizing k with
  | nil => exact hlater
  | cons r more ih =>
    rw [← List.singleton_append, fastCalls_append, ← Nat.add_assoc] at hlater
    exact ⟨h.1, ih h.2 hlater⟩

/-- A request finds the count of the requests before it. -/
theorem Paced.counts {r : Request σ κ ω} (h : Paced k (requests ++ r :: later)) :
    r.isAdmitted = true ∧ Counts (k + fastCalls requests) r.found := by
  induction requests generalizing k with
  | nil => exact h.1
  | cons first more ih =>
    rw [← List.singleton_append, fastCalls_append, ← Nat.add_assoc]
    exact ih h.2

/-- Without a request the count is as it was. -/
theorem Tallied.nil (h : Counts k g) : Tallied k [] g :=
  ⟨trivial, h⟩

/-- Requests go on from the count of those before them. -/
theorem Tallied.append (h : Tallied k requests g)
    (hlater : Tallied (k + fastCalls requests) later g') : Tallied k (requests ++ later) g' where
  paced := h.paced.append hlater.paced
  counts := by
    rw [fastCalls_append, ← Nat.add_assoc]
    exact hlater.counts

/-- What changes no data changes no count. -/
private theorem Counts.sameData (h : Counts k g) (hsame : SameData g g') : Counts k g' :=
  ⟨hsame.suppressing.trans h.suppressing, hsame.suppressCount.trans h.suppressCount⟩

/-! ### One request -/

section Gateways

variable [Transport σ] [Listener κ ω] {tier : Tier}

/-- Releases the outside locks, unless it still waits for something. -/
def releaseLocks : EStateM.Result (Stop GatewayError) (Gateway σ κ ω) Unit →
    EStateM.Result (Stop GatewayError) (Gateway σ κ ω) Unit
  | .ok () g => .ok () g.unlocked
  | .error (.failed cause) g => .error (.failed cause) g.unlocked
  | .error .unfinished g => .error .unfinished g

omit [Transport σ] [Listener κ ω] in
/-- A lock is taken or it is not, but it stays where it is. -/
private theorem length_takeLocks (locks : List Bool) :
    (takeLocks locks).1.length = locks.length := by
  induction locks with
  | nil => rfl
  | cons held rest ih =>
    cases held with
    | true => rfl
    | false => exact congrArg (· + 1) ih

omit [Transport σ] [Listener κ ω] in
/-- Releasing the locks does not depend on which were taken. -/
private theorem unlocked_locked (g : Gateway σ κ ω) (taken : Nat) :
    (g.locked taken).unlocked = g.unlocked := by
  have hlength : (g.locked taken).locks.length = g.locks.length := by
    show (g.locks.take taken ++ (takeLocks (g.locks.drop taken)).1).length = _
    rw [List.length_append, length_takeLocks, ← List.length_append, List.take_append_drop]
  unfold unlocked
  rw [List.map_const', List.map_const', hlength]
  rfl

/-- A request is a refresh under the locks, or it is counted and nothing else. -/
theorem updateFrom_of_admitted {r : Request σ κ ω} (hadmitted : r.isAdmitted = true)
    (h : Counts k r.found) :
    (r.IsCarriedOut → updateFrom r.taken r.tier r.found =
      releaseLocks (refresh r.tier { r.found.locked r.taken with
        suppressCount := UInt32.ofNat (k + fastCalls [r]) })) ∧
    (¬ r.IsCarriedOut → updateFrom r.taken r.tier r.found =
      .ok () { r.found.unlocked with
        suppressCount := UInt32.ofNat (k + fastCalls [r])
        counters := r.found.counters.suppressedUpdate }) := by
  have hlocked : Counts k (r.found.locked r.taken) := ⟨h.suppressing, h.suppressCount⟩
  have hcount := (suppresses_of_counts hlocked r.tier).2
  have hfree : (takeLocks (r.found.locks.drop r.taken)).2 = true := hadmitted
  rw [updateFrom_eq, if_pos hfree, refreshUnlessSuppressed_eq, suppresses_locked, hcount,
    fastCalls_singleton]
  constructor
  · -- the refresh begins with the request counted
    intro hcarried
    rw [if_neg (ne_true_of_eq_false hcarried)]
    rfl
  · -- nothing is done but the counting, and the locks are released as they were taken
    intro hleft
    rw [if_pos (Bool.of_not_eq_false hleft), ← unlocked_locked r.found r.taken]
    rfl

/-- A refresh leaves the count alone. -/
theorem Counts.refresh (h : Counts k g) : Counts k (finalState (refresh tier g)) := by
  rw [refresh_eq]
  split
  · exact ⟨h.suppressing, h.suppressCount⟩
  · have hdata := transactAll_sameData (g.table tier).commands g
    cases hall : transactAll (g.table tier).commands g with
    | ok replies g₂ =>
      rw [hall] at hdata
      -- the exchanges ask for no suppression, and storing the replies does not either
      have hcounts : Counts k g₂ := h.sameData hdata
      simp only [complete_eq]
      split <;> exact ⟨hcounts.suppressing, hcounts.suppressCount⟩
    | error stop g₂ =>
      rw [hall] at hdata
      have hcounts : Counts k g₂ := h.sameData hdata
      cases stop <;> exact ⟨hcounts.suppressing, hcounts.suppressCount⟩

omit [Transport σ] [Listener κ ω] in
/-- So does the release of the locks. -/
private theorem Counts.releaseLocks {run : EStateM.Result (Stop GatewayError) (Gateway σ κ ω) Unit}
    (h : Counts k (finalState run)) : Counts k (finalState (releaseLocks run)) := by
  cases run with
  | ok u g₁ => exact ⟨h.suppressing, h.suppressCount⟩
  | error stop g₁ => cases stop <;> exact ⟨h.suppressing, h.suppressCount⟩

/-- A request counts if it is of the fast tier, and it counts once. -/
theorem tallied_update {r : Request σ κ ω} (h : Counts k r.found) :
    Tallied k ([r].filter Request.isAdmitted) (finalState (updateFrom r.taken r.tier r.found)) := by
  cases hadmitted : r.isAdmitted with
  | false =>
    -- it waits, and the gateway has not been asked
    have hheld : (takeLocks (r.found.locks.drop r.taken)).2 = false := hadmitted
    rw [List.filter_cons_of_neg (ne_true_of_eq_false hadmitted), updateFrom_eq, hheld,
      if_neg Bool.false_ne_true]
    exact .nil ⟨h.suppressing, h.suppressCount⟩
  | true =>
    rw [List.filter_cons_of_pos hadmitted]
    refine ⟨⟨⟨hadmitted, h⟩, trivial⟩, ?_⟩
    obtain ⟨hcarried, hleft⟩ := updateFrom_of_admitted hadmitted h
    by_cases hdecided : r.IsCarriedOut
    · have hready : Counts (k + fastCalls [r]) { r.found.locked r.taken with
          suppressCount := UInt32.ofNat (k + fastCalls [r]) } := ⟨h.suppressing, rfl⟩
      rw [hcarried hdecided]
      exact hready.refresh.releaseLocks
    · rw [hleft hdecided]
      exact ⟨h.suppressing, rfl⟩

/-- Refreshes one after another are tallied as requests of their own. -/
theorem tallied_attempts (goesOn : Except (Stop GatewayError) Unit → Bool) (tiers : List Tier)
    (h : Counts k g) :
    Tallied k (requestsOf (attempts goesOn tiers g))
      (afterAttempts g (attempts goesOn tiers g)) := by
  -- on the tiers, with the count that the refreshes before come to
  induction tiers generalizing k g with
  | nil => exact .nil h
  | cons tier more ih =>
    have hfirst := tallied_update (r := ⟨0, tier, g⟩) h
    have hsplit : ∀ rest, requestsOf ((tier, g) :: rest) =
        [⟨0, tier, g⟩].filter Request.isAdmitted ++ requestsOf rest := by
      intro rest
      rw [requestsOf, List.map_cons, ← List.singleton_append, List.filter_append]
      rfl
    rw [attempts, afterAttempts_cons, hsplit]
    -- the first refresh leaves the count that the others begin with
    split
    · exact hfirst.append (ih hfirst.counts)
    · exact hfirst.append (.nil hfirst.counts)

/-! ### Every run -/

/-- An operation that does not switch the suppression adds its requests. -/
theorem tallied_run {op : Operation κ} (hop : op.switches = false) (h : Counts k g) :
    Tallied k (op.requests g) (finalState (op.run g)) := by
  -- only a refresh is counted, and only the two switches end the count
  cases op with
  | update taken tier =>
    rw [Operation.run, finalState_bind_pure]
    exact tallied_update (r := ⟨taken, tier, g⟩) h
  | pollAll =>
    rw [Operation.run, finalState_bind_pure, finalState_pollAll]
    exact tallied_attempts hasEnded Tier.all h
  | immediate command =>
    rw [Operation.run, finalState_bind_pure]
    exact .nil (h.sameData (immediate_sameData command g))
  | checkConnection =>
    rw [Operation.run, finalState_bind_pure]
    exact .nil (h.sameData (ensureConnected_sameData g))
  | status =>
    rw [Operation.run, finalState_bind_pure]
    exact .nil (h.sameData (status_sameData g))
  | addVariable | addMonitored | removeVariable | register =>
    exact .nil ⟨h.suppressing, h.suppressCount⟩
  | suppress | reinstate => exact Bool.noConfusion hop

/-- A cycle adds the requests of its refreshes. -/
theorem tallied_cycle (h : Counts k g) (now : Nat) (s : Scheduler) :
    Tallied k (requestsOf (cycleAttempts s now g)) (finalState (s.cycle now g)) := by
  have hchecked : Counts k (finalState (checkConnection g)) :=
    h.sameData (ensureConnected_sameData g)
  obtain ⟨tiers, -, hattempts⟩ := cycleAttempts_eq s now g
  rw [finalState_cycle, hattempts]
  exact tallied_attempts linkHeld tiers hchecked

/-- So do all operations and cycles since the suppression began, with none at its beginning. -/
theorem tallied_suppressed {start : Gateway σ κ ω} (h : Suppressed start requests g) :
    Tallied 0 requests g := by
  induction h with
  | start => exact .nil ⟨rfl, rfl⟩
  | operation op hop _ ih => exact ih.append (tallied_run hop ih.counts)
  | cycle now s _ ih => exact ih.append (tallied_cycle ih.counts now s)
  | outside link locks _ ih => exact ⟨ih.paced, ih.counts.suppressing, ih.counts.suppressCount⟩

/-- What becomes of a request, by those before it and after it. -/
structure KeepsCadence (before : List (Request σ κ ω)) (r : Request σ κ ω)
    (after : List (Request σ κ ω)) : Prop where
  /-- Of the fast tier every fourth is carried out. -/
  fast : r.tier = .fast → (r.IsCarriedOut ↔ 4 ∣ fastCalls before + 1)
  slower : r.tier = .medium ∨ r.tier = .slow → ¬ r.IsCarriedOut
  /-- One of the prefast tier is carried out just if one of the fast tier would be. -/
  preFast : r.tier = .preFast → (r.IsCarriedOut ↔ { r with tier := .fast }.IsCarriedOut)
  /-- And so it goes with the next one of the fast tier. -/
  together : r.tier = .preFast → ∀ between f later, after = between ++ f :: later →
    (∀ b ∈ between, b.tier ≠ .fast) → f.tier = .fast → (r.IsCarriedOut ↔ f.IsCarriedOut)
  /-- To be carried out is to refresh the tier under the locks. -/
  carriedOut : r.IsCarriedOut → updateFrom r.taken r.tier r.found =
    releaseLocks (Gateway.refresh r.tier { r.found.locked r.taken with
      suppressCount := UInt32.ofNat (fastCalls (before ++ [r])) })
  /-- One that is left out succeeds. It adds one to the count of such requests and touches nothing
      but that, the count of the suppression and the locks, whether the connection stands or not. -/
  leftOut : ¬ r.IsCarriedOut → updateFrom r.taken r.tier r.found = .ok () { r.found.unlocked with
    suppressCount := UInt32.ofNat (fastCalls (before ++ [r]))
    counters := { r.found.counters with
      suppressedUpdates := r.found.counters.suppressedUpdates + 1 } }

/-- **Suppression keeps its cadence.** From a call of `suppress` on, and until the next one of it or
    of `reinstate`, any refreshes and polls, any other operations and any cycles may follow. Of the
    requests of the fast tier every fourth is carried out, however many there are, none of the
    medium and the slow tier is, and one of the prefast tier is just if the next one of the fast
    tier is. What is left out succeeds, is counted once, and touches nothing else. -/
theorem suppression_cadence {start : Gateway σ κ ω} (h : Suppressed start requests g) :
    ∀ before r after, requests = before ++ r :: after → KeepsCadence before r after := by
  rintro before r after rfl
  have hpaced := (tallied_suppressed h).paced
  obtain ⟨hadmitted, hcounts⟩ := hpaced.counts
  rw [Nat.zero_add] at hcounts
  have hdecided : ∀ tier, Request.IsCarriedOut { r with tier } ↔
      (tier = .preFast ∨ tier = .fast) ∧ 4 ∣ fastCalls before + 1 :=
    fun tier => (suppresses_of_counts hcounts tier).1
  have hcarriedOut : r.IsCarriedOut ↔ _ := hdecided r.tier
  obtain ⟨hcarried, hleft⟩ := updateFrom_of_admitted hadmitted hcounts
  rw [← fastCalls_append] at hcarried hleft
  refine ⟨fun htier => ?_, fun htier => ?_, fun htier => ?_, ?_, hcarried, hleft⟩
  · rw [hcarriedOut, htier]
    simp
  · rw [hcarriedOut]
    -- neither of these tiers is carried out, at whatever count
    rcases htier with htier | htier <;> simp [htier]
  · rw [hcarriedOut, hdecided, htier]
    simp
  · rintro htier between f later rfl hbetween hfast
    -- no request in between is counted, nor is this one
    have hsame : fastCalls (before ++ r :: between) = fastCalls before := by
      have hnone : fastCalls (r :: between) = 0 := by
        rw [fastCalls, List.countP_eq_zero]
        intro b hb
        rcases List.mem_cons.mp hb with rfl | hb
        · simp [htier]
        · simpa using hbetween b hb
      rw [fastCalls_append, hnone, Nat.add_zero]
    rw [← List.cons_append, ← List.append_assoc] at hpaced
    have hlater := hpaced.counts.2
    rw [Nat.zero_add, hsame] at hlater
    have hnext : f.IsCarriedOut ↔ _ := (suppresses_of_counts hlater f.tier).1
    rw [hcarriedOut, hnext, htier, hfast]
    simp

/-- A refresh that finds its locks free is one more request. -/
theorem Suppressed.update {start : Gateway σ κ ω} (h : Suppressed start requests g) (tier : Tier)
    (hfree : (takeLocks g.locks).2 = true) : Suppressed start (requests ++ [⟨0, tier, g⟩])
      (finalState (Gateway.update tier g)) := by
  have hrequest : [Request.mk 0 tier g].filter Request.isAdmitted = [⟨0, tier, g⟩] :=
    List.filter_cons_of_pos hfree
  have hoperation := h.operation (.update 0 tier) rfl
  rw [Operation.requests, hrequest, Operation.run, finalState_bind_pure] at hoperation
  exact hoperation

/-- A gateway that is not connected and has nothing to ask for. -/
def idleGateway : Gateway Device ChangeLog Change := .new {} {} 1 false

/-- The fourth of four requests of the fast tier is carried out, and so is the one of the prefast
    tier that comes before it. -/
theorem suppression_cadence_idle :
    ∃ first second third preFast fast, ∃ g, Suppressed idleGateway
      [first, second, third, preFast, fast] g ∧
      (preFast.tier = .preFast ∧ ∀ r ∈ [first, second, third, fast], r.tier = .fast) ∧
      ¬ third.IsCarriedOut ∧ preFast.IsCarriedOut ∧ fast.IsCarriedOut := by
  have hstart : Suppressed idleGateway [] idleGateway.suppress := .start
  have hrun := ((((hstart.update .fast rfl).update .fast rfl).update .fast rfl).update .preFast
    rfl).update .fast rfl
  have hcadence := suppression_cadence hrun
  -- the third of the fast requests is left out and the fourth is not
  have hthird := (hcadence [_, _] _ [_, _] rfl).fast rfl
  have hfast := (hcadence [_, _, _, _] _ [] rfl).fast rfl
  have htogether := (hcadence [_, _, _] _ [_] rfl).together rfl [] _ [] rfl
    (List.forall_mem_nil _) rfl
  have hcarried := hfast.mpr (by decide)
  exact ⟨_, _, _, _, _, _, hrun, by simp, mt hthird.mp (by decide), htogether.mpr hcarried,
    hcarried⟩

end Gateways

end PmacPoll.Gateway
