import PmacPoll.Proofs.GatewayExchange

/-!
# What a refresh does to a gateway

The operations of `Gateway.Refresh` written out, one equation each: `complete_eq`, `refresh_eq`,
`refreshUnlessSuppressed_eq` and `updateFrom_eq`.

Before the first command a refresh touches its locks and the suppression count only, `Prepared`.
A failed one failed in the middle of its commands, or its replies were stored and one of them was
wrong: `updateFrom_failed`. The error tells which of the two it was, `isLinkFailure_of_stored`.
Whatever it comes to, the other tiers stay as they are, `updateFrom_get_ne`.
-/

namespace PmacPoll.Gateway

open Running

variable {σ κ ω : Type}

/-! ### Equations -/

/-- What the replies of a refresh come to. -/
def stored (g : Gateway σ κ ω) (tier : Tier) (replies : List (String × Reply)) : Stored :=
  Stored.replies ⟨g.table tier, g.counters, none⟩ replies

/-- The gateway after the replies of a refresh are stored and the listeners called. -/
def completed [Listener κ ω] [Transport σ] (g : Gateway σ κ ω) (tier : Tier) (started : Nat)
    (replies : List (String × Reply)) : Gateway σ κ ω :=
  let stored := g.stored tier replies
  let called := notifyAll ⟨tier, stored.table, g.locks⟩ (g.tiers.get tier).listeners
  let completedAt := Transport.now g.channel.link
  let duration := completedAt - started
  { g with
    tiers := g.tiers.set tier
      ⟨stored.table, called.1, some ⟨g.sequence + 1, completedAt, duration⟩⟩
    counters := stored.counters
    updateTime := duration
    sequence := g.sequence + 1
    journal := g.journal ++ called.2 }

/-- A refresh ends with the first wrong reply, if there was one, and has stored all of them either
    way. -/
theorem complete_eq [Listener κ ω] [Transport σ] (tier : Tier) (started : Nat)
    (replies : List (String × Reply)) (g : Gateway σ κ ω) :
    complete tier started replies g =
      match (g.stored tier replies).error with
      | some cause => .error (.failed cause) (g.completed tier started replies)
      | none => .ok () (g.completed tier started replies) := by
  simp only [complete, now, bind_run, pure_run, get_run, set_run]
  change (match (g.stored tier replies).error with
    | some cause => raise cause
    | none => pure () : Action σ κ ω Unit) (g.completed tier started replies) = _
  cases (g.stored tier replies).error with
  | some cause => rfl
  | none => rfl

/-- The tier has the table in which the replies were stored. -/
theorem table_completed [Listener κ ω] [Transport σ] (g : Gateway σ κ ω) (tier : Tier)
    (started : Nat) (replies : List (String × Reply)) :
    (g.completed tier started replies).table tier = (g.stored tier replies).table := by
  rw [completed, table, PerTier.get_set_self]

variable [Transport σ]

/-- The gateway after a refresh that was not completed. -/
def timed (g : Gateway σ κ ω) (started : Nat) : Gateway σ κ ω :=
  { g with updateTime := Transport.now g.channel.link - started }

variable [Listener κ ω]

/-- A tier without commands is only timed; with commands, either all of them get a reply, and these
    are stored, or an exchange fails and nothing is. -/
theorem refresh_eq (tier : Tier) (g : Gateway σ κ ω) :
    refresh tier g =
      if (g.table tier).commands = [] then .ok () (g.timed (Transport.now g.channel.link))
      else match transactAll (g.table tier).commands g with
        | .ok replies g' => complete tier (Transport.now g.channel.link) replies g'
        | .error (.failed cause) g' =>
          .error (.failed cause) (g'.timed (Transport.now g.channel.link))
        | .error .unfinished g' => .error .unfinished g' := by
  simp only [refresh, recordTime, now, bind_run, pure_run, get_run]
  cases (g.table tier).commands with
  | nil => rfl
  | cons command more =>
    rw [if_neg (List.cons_ne_nil command more)]
    simp only [bind_run, attempt]
    cases transactAll (command :: more) g with
    | ok replies g' => rfl
    | error stop g' => cases stop <;> rfl

/-- A suppressed refresh is counted and not carried out. -/
theorem refreshUnlessSuppressed_eq (tier : Tier) (g : Gateway σ κ ω) :
    refreshUnlessSuppressed tier g =
      if (g.suppresses tier).1 then
        .ok () { (g.suppresses tier).2 with
          counters := (g.suppresses tier).2.counters.suppressedUpdate }
      else refresh tier (g.suppresses tier).2 := by
  simp only [refreshUnlessSuppressed, bind_run, get_run, set_run, ite_run, modify_run]

/-- Locks that nobody holds are all taken. -/
theorem takeLocks_of_free {locks : List Bool} (h : ∀ held ∈ locks, held = false) :
    (takeLocks locks).2 = true := by
  induction locks with
  | nil => rfl
  | cons held rest ih =>
    obtain rfl := h held (List.mem_cons_self ..)
    exact ih fun b hb => h b (List.mem_cons_of_mem false hb)

/-- One lock that somebody holds keeps the rest from being taken. -/
theorem takeLocks_of_held {locks : List Bool} (h : ∃ held ∈ locks, held = true) :
    (takeLocks locks).2 = false := by
  obtain ⟨held, hmem, rfl⟩ := h
  induction locks with
  | nil => exact absurd hmem List.not_mem_nil
  | cons first rest ih =>
    -- the locks before the one that is held are taken
    cases first with
    | true => rfl
    | false =>
      rcases List.mem_cons.mp hmem with hfirst | hrest
      · exact absurd hfirst.symm Bool.false_ne_true
      · exact ih hrest

/-- The gateway after its outside locks were taken, as far as they are free, by an update that holds
    the first `taken` of them already. -/
def locked (g : Gateway σ κ ω) (taken : Nat) : Gateway σ κ ω :=
  { g with locks := g.locks.take taken ++ (takeLocks (g.locks.drop taken)).1 }

/-- The gateway with the outside locks released. -/
def unlocked (g : Gateway σ κ ω) : Gateway σ κ ω :=
  { g with locks := g.locks.map fun _ => false }

/-- A refresh runs once all outside locks are taken, and releases them, unless it is still going
    on. -/
theorem updateFrom_eq (taken : Nat) (tier : Tier) (g : Gateway σ κ ω) :
    updateFrom taken tier g =
      if (takeLocks (g.locks.drop taken)).2 then
        match refreshUnlessSuppressed tier (g.locked taken) with
        | .ok () g' => .ok () g'.unlocked
        | .error (.failed cause) g' => .error (.failed cause) g'.unlocked
        | .error .unfinished g' => .error .unfinished g'
      else .error .unfinished (g.locked taken) := by
  simp only [updateFrom, bind_run, get_run, set_run, ite_run]
  split
  · simp only [attempt, locked]
    cases refreshUnlessSuppressed tier
        { g with locks := g.locks.take taken ++ (takeLocks (g.locks.drop taken)).1 } with
    | ok u g' => rfl
    | error stop g' => cases stop <;> rfl
  · rfl

/-! ### What it comes to -/

omit [Transport σ] [Listener κ ω] in
/-- A wrong reply is no failure of the link. -/
private theorem error_of_reply {s : Stored} {command : String} {reply : Reply} {e : GatewayError}
    (h : (s.reply command reply).error = some e) : s.error = some e ∨ e.isLinkFailure = false := by
  -- an error that was there is kept, and one that the reply brings is none of the link
  unfold Stored.reply at h
  split at h
  · cases hs : s.error with
    | some cause => rw [hs] at h; exact Or.inl h
    | none =>
      rw [hs] at h
      obtain rfl := Option.some.inj h
      exact Or.inr rfl
  · split at h
    · exact Or.inl h
    · cases hs : s.error with
      | some cause => rw [hs] at h; exact Or.inl h
      | none =>
        rw [hs] at h
        obtain rfl := Option.some.inj h
        exact Or.inr rfl

omit [Transport σ] [Listener κ ω] in
/-- What is wrong with the replies of a completed refresh is no failure of the link. -/
theorem isLinkFailure_of_stored {g : Gateway σ κ ω} {tier : Tier} {e : GatewayError}
    {replies : List (String × Reply)} (h : (g.stored tier replies).error = some e) :
    e.isLinkFailure = false := by
  suffices hall : ∀ (replies : List (String × Reply)) (s : Stored),
      (s.replies replies).error = some e → s.error = some e ∨ e.isLinkFailure = false by
    rcases hall replies _ h with hnone | hdone
    · exact nomatch hnone
    · exact hdone
  -- The first error is kept, and each reply adds only its own.
  intro replies
  induction replies with
  | nil => exact fun s hs => Or.inl hs
  | cons r more ih =>
    intro s hs
    rcases ih (s.reply r.1 r.2) hs with hr | hdone
    · exact error_of_reply hr
    · exact Or.inr hdone

/-- The gateway is ready for the first command of a refresh: it differs from what it was in its
    locks and its suppression count only. -/
def Prepared (g g₁ : Gateway σ κ ω) : Prop :=
  ∃ locks count, g₁ = { g with locks, suppressCount := count }

omit [Transport σ] [Listener κ ω] in
/-- Up to the first command all tiers are as they were. -/
private theorem Prepared.tiers_eq {g g₁ : Gateway σ κ ω} (h : Prepared g g₁) :
    g₁.tiers = g.tiers := by
  obtain ⟨locks, count, rfl⟩ := h
  rfl

omit [Transport σ] [Listener κ ω] in
/-- To ask whether a refresh is suppressed counts the question and changes nothing else. -/
theorem snd_suppresses (tier : Tier) (g : Gateway σ κ ω) :
    ∃ count, (g.suppresses tier).2 = { g with suppressCount := count } := by
  unfold suppresses
  split
  · cases tier <;> exact ⟨_, rfl⟩
  · exact ⟨_, rfl⟩

omit [Transport σ] [Listener κ ω] in
/-- Taking the locks and asking for suppression makes a gateway ready. -/
theorem prepared_suppresses (taken : Nat) (tier : Tier) (g : Gateway σ κ ω) :
    Prepared g ((g.locked taken).suppresses tier).2 := by
  obtain ⟨count, h⟩ := snd_suppresses tier (g.locked taken)
  exact ⟨_, count, h⟩

omit [Transport σ] [Listener κ ω] in
/-- The locks have no part in the suppression. -/
theorem suppresses_locked (g : Gateway σ κ ω) (taken : Nat) (tier : Tier) :
    ((g.locked taken).suppresses tier).1 = (g.suppresses tier).1 := by
  unfold suppresses locked
  split
  · cases tier <;> rfl
  · rfl

/-- A refresh that is not suppressed is carried out on a gateway that is ready for it. -/
theorem refreshUnlessSuppressed_carried {g : Gateway σ κ ω} {tier : Tier}
    (hcarried : (g.suppresses tier).1 = false) (taken : Nat) :
    ∃ locks count, refreshUnlessSuppressed tier (g.locked taken) =
      refresh tier { g with locks, suppressCount := count } := by
  obtain ⟨locks, count, hprepared⟩ := prepared_suppresses taken tier g
  refine ⟨locks, count, ?_⟩
  rw [refreshUnlessSuppressed_eq, hprepared, if_neg]
  rw [suppresses_locked, hcarried]
  exact Bool.false_ne_true

/-- A refresh without an error has stored the replies to all commands of its tier, if it has any. -/
private theorem refresh_ok {tier : Tier} {g g' : Gateway σ κ ω} (h : refresh tier g = .ok () g') :
    ((g.table tier).commands = [] ∧ ∃ started, g' = g.timed started) ∨
    ((g.table tier).commands ≠ [] ∧ ∃ g₂ started replies,
      transactAll (g.table tier).commands g = .ok replies g₂ ∧
      (g₂.stored tier replies).error = none ∧ g' = g₂.completed tier started replies) := by
  rw [refresh_eq] at h
  split at h
  · next hnone =>
    obtain ⟨-, rfl⟩ := EStateM.Result.ok.inj h
    exact Or.inl ⟨hnone, _, rfl⟩
  · next hsome =>
    -- the replies are stored and all are right, as else there were an error
    cases hall : transactAll (g.table tier).commands g with
    | ok replies g₂ =>
      simp only [hall, complete_eq] at h
      cases herror : (g₂.stored tier replies).error with
      | none =>
        rw [herror] at h
        obtain ⟨-, rfl⟩ := EStateM.Result.ok.inj h
        exact Or.inr ⟨hsome, g₂, _, replies, rfl, herror, rfl⟩
      | some cause => rw [herror] at h; exact nomatch h
    | error stop g₂ =>
      rw [hall] at h
      cases stop <;> exact nomatch h

/-- A refresh without an error was suppressed, or it had nothing to ask for, or it has stored all
    replies. -/
theorem updateFrom_ok {taken : Nat} {tier : Tier} {g g' : Gateway σ κ ω}
    (h : updateFrom taken tier g = .ok () g') :
    ∃ g₁, Prepared g g₁ ∧
      (((g.suppresses tier).1 = true ∧
        g' = unlocked { g₁ with counters := g₁.counters.suppressedUpdate }) ∨
      ((g.suppresses tier).1 = false ∧ (g.table tier).commands = [] ∧
        ∃ started, g' = (g₁.timed started).unlocked) ∨
      ((g.suppresses tier).1 = false ∧ (g.table tier).commands ≠ [] ∧ ∃ g₂ started replies,
        transactAll (g.table tier).commands g₁ = .ok replies g₂ ∧
        (g₂.stored tier replies).error = none ∧
        g' = (g₂.completed tier started replies).unlocked)) := by
  have hprepared := prepared_suppresses taken tier g
  have htable : (((g.locked taken).suppresses tier).2).table tier = g.table tier :=
    congrArg (fun tiers => (tiers.get tier).table) hprepared.tiers_eq
  rw [updateFrom_eq] at h
  split at h
  · refine ⟨_, hprepared, ?_⟩
    -- the locks were taken; what is left are the three ways to end without an error
    cases hrefresh : refreshUnlessSuppressed tier (g.locked taken) with
    | error stop g₂ =>
      rw [hrefresh] at h
      cases stop <;> exact nomatch h
    | ok u g₂ =>
      rw [hrefresh] at h
      obtain ⟨-, rfl⟩ := EStateM.Result.ok.inj h
      rw [refreshUnlessSuppressed_eq, suppresses_locked] at hrefresh
      split at hrefresh
      · next hsuppressed =>
        obtain ⟨-, rfl⟩ := EStateM.Result.ok.inj hrefresh
        exact Or.inl ⟨hsuppressed, rfl⟩
      · next hcarried =>
        rw [Bool.not_eq_true] at hcarried
        have hcases := refresh_ok hrefresh
        rw [htable] at hcases
        rcases hcases with ⟨hnone, started, rfl⟩ | ⟨hsome, g₃, started, replies, hall, hok, rfl⟩
        · exact Or.inr (Or.inl ⟨hcarried, hnone, started, rfl⟩)
        · exact Or.inr (Or.inr ⟨hcarried, hsome, g₃, started, replies, hall, hok, rfl⟩)
  · exact nomatch h

/-- A refresh that failed lost its link, and was only timed, or one of the replies it stored was
    wrong. -/
private theorem refresh_failed {tier : Tier} {g g' : Gateway σ κ ω} {e : GatewayError}
    (h : refresh tier g = .error (.failed e) g') :
    (∃ g₂ started, transactAll (g.table tier).commands g = .error (.failed e) g₂ ∧
      g' = g₂.timed started) ∨
    (∃ g₂ started replies, transactAll (g.table tier).commands g = .ok replies g₂ ∧
      (g₂.stored tier replies).error = some e ∧ g' = g₂.completed tier started replies) := by
  rw [refresh_eq] at h
  split at h
  · exact nomatch h
  · -- there are commands, as without them there is no error
    cases hall : transactAll (g.table tier).commands g with
    | ok replies g₂ =>
      simp only [hall, complete_eq] at h
      cases herror : (g₂.stored tier replies).error with
      | none => rw [herror] at h; exact nomatch h
      | some cause =>
        rw [herror] at h
        obtain ⟨hcause, rfl⟩ := EStateM.Result.error.inj h
        rw [← Stop.failed.inj hcause]
        exact Or.inr ⟨g₂, _, replies, rfl, herror, rfl⟩
    | error stop g₂ =>
      rw [hall] at h
      cases stop with
      | unfinished => exact nomatch h
      | failed cause =>
        obtain ⟨hcause, rfl⟩ := EStateM.Result.error.inj h
        rw [← Stop.failed.inj hcause]
        exact Or.inl ⟨g₂, _, rfl, rfl⟩

/-- A refresh that failed has either lost its link in the middle of its commands, or it has stored
    all replies and one of them was wrong. -/
theorem updateFrom_failed {taken : Nat} {tier : Tier} {g g' : Gateway σ κ ω} {e : GatewayError}
    (h : updateFrom taken tier g = .error (.failed e) g') :
    ∃ g₁, Prepared g g₁ ∧
      ((∃ g₂ started, transactAll (g.table tier).commands g₁ = .error (.failed e) g₂ ∧
        g' = (g₂.timed started).unlocked) ∨
      (∃ g₂ started replies, transactAll (g.table tier).commands g₁ = .ok replies g₂ ∧
        (g₂.stored tier replies).error = some e ∧
        g' = (g₂.completed tier started replies).unlocked)) := by
  have hprepared := prepared_suppresses taken tier g
  have htable : (((g.locked taken).suppresses tier).2).table tier = g.table tier :=
    congrArg (fun tiers => (tiers.get tier).table) hprepared.tiers_eq
  rw [updateFrom_eq] at h
  split at h
  · refine ⟨_, hprepared, ?_⟩
    -- the locks were taken, and the refresh was not suppressed
    cases hrefresh : refreshUnlessSuppressed tier (g.locked taken) with
    | ok u g₂ => rw [hrefresh] at h; exact nomatch h
    | error stop g₂ =>
      rw [hrefresh] at h
      cases stop with
      | unfinished => exact nomatch h
      | failed cause =>
        obtain ⟨hcause, rfl⟩ := EStateM.Result.error.inj h
        rw [Stop.failed.inj hcause, refreshUnlessSuppressed_eq] at hrefresh
        split at hrefresh
        · exact nomatch hrefresh
        · have hcases := refresh_failed hrefresh
          rw [htable] at hcases
          rcases hcases with ⟨g₂, started, hall, rfl⟩ | ⟨g₂, started, replies, hall, herror, rfl⟩
          · exact Or.inl ⟨g₂, started, hall, rfl⟩
          · exact Or.inr ⟨g₂, started, replies, hall, herror, rfl⟩
  · exact nomatch h

/-! ### Confinement -/

/-- A refresh that is carried out leaves the other tiers as they are. -/
private theorem refresh_get_ne {tier other : Tier} (hne : other ≠ tier) (g : Gateway σ κ ω) :
    (finalState (refresh tier g)).tiers.get other = g.tiers.get other := by
  rw [refresh_eq]
  split
  · rfl
  · have hdata := transactAll_sameData (g.table tier).commands g
    -- the exchanges touch no tier, and storing the replies touches this one
    cases hall : transactAll (g.table tier).commands g with
    | ok replies g₂ =>
      rw [hall] at hdata
      have hset : (g₂.completed tier (Transport.now g.channel.link) replies).tiers.get other =
          g.tiers.get other := by
        rw [← hdata.tiers]
        exact PerTier.get_set_ne g₂.tiers _ hne
      simp only [complete_eq]
      split
      · exact hset
      · exact hset
    | error stop g₂ =>
      rw [hall] at hdata
      cases stop with
      | failed cause => exact congrArg (PerTier.get · other) hdata.tiers
      | unfinished => exact congrArg (PerTier.get · other) hdata.tiers

/-- Whatever a refresh comes to, the other tiers stay as they are. -/
theorem updateFrom_get_ne (taken : Nat) {tier other : Tier} (hne : other ≠ tier)
    (g : Gateway σ κ ω) :
    (finalState (updateFrom taken tier g)).tiers.get other = g.tiers.get other := by
  have htiers : ((g.locked taken).suppresses tier).2.tiers = g.tiers :=
    (prepared_suppresses taken tier g).tiers_eq
  have hall : (finalState (refreshUnlessSuppressed tier (g.locked taken))).tiers.get other =
      g.tiers.get other := by
    rw [refreshUnlessSuppressed_eq]
    split
    · exact congrArg (PerTier.get · other) htiers
    · rw [refresh_get_ne hne, htiers]
  rw [updateFrom_eq]
  split
  · cases hrefresh : refreshUnlessSuppressed tier (g.locked taken) with
    | ok u g₂ => rw [hrefresh] at hall; exact hall
    | error stop g₂ =>
      rw [hrefresh] at hall
      cases stop with
      | failed cause => exact hall
      | unfinished => exact hall
  · rfl

end PmacPoll.Gateway
