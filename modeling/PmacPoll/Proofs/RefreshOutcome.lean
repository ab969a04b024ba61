import PmacPoll.Proofs.CycleOrder

/-!
# Completed refreshes

A refresh is completed, `Completes`, if it is carried out for some names and comes to an end without
a failure of the link. Then it has stored a reply to each command, it has called each listener of
its tier once and made a record with the next number: `CompletedRefresh`. Any other refresh, one
that never ends included, leaves the records, the listeners and the values of all tiers as they
were: `SameRecords`. The two follow from one case analysis, `updateFrom_run`.
-/

namespace PmacPoll

open Running

variable {σ κ ω α β : Type}

/-- The listeners are called in order, each once. -/
private theorem notifyAll_eq [Listener κ ω] (notice : Notice) (listeners : List κ) :
    notifyAll notice listeners =
      (listeners.map fun listener => (Listener.notify listener notice).1,
        listeners.flatMap fun listener => (Listener.notify listener notice).2) := by
  induction listeners with
  | nil => rfl
  | cons listener more ih =>
    rw [notifyAll, ih]
    rfl

/-- The table after the lines of a reply are stored. -/
def VariableTable.storeReply (table : VariableTable) (r : String × Reply) : VariableTable :=
  (table.updateChunk r.1 r.2.storedText).2

namespace Gateway

/-- The table after some replies is made by storing them one after another. -/
private theorem Stored.table_replies (s : Stored) (replies : List (String × Reply)) :
    (s.replies replies).table = replies.foldl VariableTable.storeReply s.table := by
  induction replies generalizing s with
  | nil => rfl
  | cons r more ih =>
    rw [replies_cons, ih, table_reply]
    rfl

/-- Storing replies keeps the commands current. -/
theorem kept_storeReplies {table : VariableTable} (h : table.Kept)
    (replies : List (String × Reply)) :
    (replies.foldl VariableTable.storeReply table).Kept := by
  have hkept := (Stored.kept_replies (s := ⟨table, {}, none⟩) h replies).1
  rwa [Stored.table_replies] at hkept

/-! ### Completion -/

/-- Has an operation come to an end without a failure of the link? -/
def linkHeld : Except (Stop GatewayError) α → Bool
  | .ok _ => true
  | .error (.failed cause) => !cause.isLinkFailure
  | .error .unfinished => false

variable [Transport σ] [Listener κ ω]

/-- A refresh is carried out for some names and comes to an end without a failure of the link. -/
def Completes (taken : Nat) (tier : Tier) (g : Gateway σ κ ω) : Prop :=
  (g.suppresses tier).1 = false ∧ (g.table tier).names ≠ [] ∧
    linkHeld (outcome (updateFrom taken tier g)) = true

instance (taken : Nat) (tier : Tier) (g : Gateway σ κ ω) : Decidable (Completes taken tier g) :=
  inferInstanceAs (Decidable (_ ∧ _ ∧ _))

/-- What the listeners of a tier are told of a refresh: its values after it, and the outside locks
    that it holds. -/
def notice (taken : Nat) (tier : Tier) (g : Gateway σ κ ω) : Notice where
  tier := tier
  table := (finalState (updateFrom taken tier g)).table tier
  locks := (g.locked taken).locks

omit [Listener κ ω] in
/-- Nothing is stored, nobody is called, and there is no new record. -/
structure SameRecords (g g' : Gateway σ κ ω) : Prop where
  tiers : g'.tiers = g.tiers
  sequence : g'.sequence = g.sequence
  journal : g'.journal = g.journal

/-- What a completed refresh leaves behind. -/
structure CompletedRefresh (n : Notice) (g g' : Gateway σ κ ω) : Prop where
  /-- Each command of the tier got a reply, and all replies are stored. -/
  stored : ∃ replies, replies.map Prod.fst = (g.table n.tier).commands ∧
    Channel.Exchanged g.channel replies g'.channel ∧
    g'.table n.tier = replies.foldl VariableTable.storeReply (g.table n.tier)
  /-- The listeners are told of the values that are there afterwards. -/
  told : n.table = g'.table n.tier
  /-- Each listener of the tier is called once, in the order of registration. -/
  listeners : (g'.tiers.get n.tier).listeners =
    (g.tiers.get n.tier).listeners.map fun listener => (Listener.notify listener n).1
  journal : g'.journal = g.journal ++
    (g.tiers.get n.tier).listeners.flatMap fun listener => (Listener.notify listener n).2
  sequence : g'.sequence = g.sequence + 1
  lastUpdate : ∃ completedAt duration,
    g'.lastUpdate n.tier = some ⟨g.sequence + 1, completedAt, duration⟩
  others : ∀ other, other ≠ n.tier → g'.tiers.get other = g.tiers.get other

variable {g g' : Gateway σ κ ω} {taken : Nat} {tier : Tier}

/-! ### What a refresh comes to -/

omit [Transport σ] [Listener κ ω] in
/-- A refresh that touches no data changes no record. -/
theorem SameData.sameRecords (h : SameData g g') : SameRecords g g' :=
  ⟨h.tiers, h.sequence, h.journal⟩

/-- Whatever is wrong with the replies of a refresh, it is not the link. -/
theorem linkHeld_complete (tier : Tier) (started : Nat) (replies : List (String × Reply))
    (g : Gateway σ κ ω) : linkHeld (outcome (complete tier started replies g)) = true := by
  rw [complete_eq]
  cases herror : (g.stored tier replies).error with
  | none => rfl
  | some cause =>
    show (!cause.isLinkFailure) = true
    rw [isLinkFailure_of_stored herror]
    rfl

/-- A refresh that is carried out has completed, or it has lost its link, or it had nothing to ask
    for. -/
private theorem refresh_run (tier : Tier) (g : Gateway σ κ ω) :
    ((g.table tier).commands ≠ [] ∧ linkHeld (outcome (refresh tier g)) = true ∧
      ∃ g₂ started replies, transactAll (g.table tier).commands g = .ok replies g₂ ∧
        finalState (refresh tier g) = g₂.completed tier started replies) ∨
    (((g.table tier).commands ≠ [] → linkHeld (outcome (refresh tier g)) = false) ∧
      SameRecords g (finalState (refresh tier g))) := by
  rw [refresh_eq]
  split
  · next hnone => exact Or.inr ⟨absurd hnone, rfl, rfl, rfl⟩
  · next hsome =>
    have hdata := transactAll_sameData (g.table tier).commands g
    -- with all replies there the refresh is completed, whether one of them is wrong or not
    cases hall : transactAll (g.table tier).commands g with
    | ok replies g₂ =>
      refine Or.inl ⟨hsome, linkHeld_complete tier _ replies g₂, g₂,
        Transport.now g.channel.link, replies, rfl, ?_⟩
      simp only [complete_eq]
      cases (g₂.stored tier replies).error <;> rfl
    | error stop g₂ =>
      rw [hall] at hdata
      have hsame : SameRecords g g₂ := hdata.sameRecords
      cases stop with
      | failed cause =>
        refine Or.inr ⟨fun _ => ?_, hsame.tiers, hsame.sequence, hsame.journal⟩
        show (!cause.isLinkFailure) = false
        rw [isLinkFailure_of_transactAll hall]
        rfl
      | unfinished => exact Or.inr ⟨fun _ => rfl, hsame⟩

/-- A refresh that gets its locks comes to what it comes to without them. -/
theorem updateFrom_of_free (tier : Tier) (h : (takeLocks (g.locks.drop taken)).2 = true) :
    outcome (updateFrom taken tier g) =
        outcome (refreshUnlessSuppressed tier (g.locked taken)) ∧
      ∃ locks, finalState (updateFrom taken tier g) =
        { finalState (refreshUnlessSuppressed tier (g.locked taken)) with locks } := by
  rw [updateFrom_eq, if_pos h]
  cases refreshUnlessSuppressed tier (g.locked taken) with
  | ok u g₁ => exact ⟨rfl, _, rfl⟩
  | error stop g₁ => cases stop <;> exact ⟨rfl, _, rfl⟩

/-- A refresh has stored all replies, or it has left everything as it was; its outcome tells which
    of the two it is. -/
theorem updateFrom_run (taken : Nat) (tier : Tier) (g : Gateway σ κ ω) :
    ((g.suppresses tier).1 = false ∧ (g.table tier).commands ≠ [] ∧
      linkHeld (outcome (updateFrom taken tier g)) = true ∧
      ∃ count g₂ started replies locks,
        transactAll (g.table tier).commands { g.locked taken with suppressCount := count } =
          .ok replies g₂ ∧
        finalState (updateFrom taken tier g) =
          { g₂.completed tier started replies with locks }) ∨
    (((g.suppresses tier).1 = false → (g.table tier).commands ≠ [] →
        linkHeld (outcome (updateFrom taken tier g)) = false) ∧
      SameRecords g (finalState (updateFrom taken tier g))) := by
  -- a lock that somebody holds keeps the refresh from doing anything
  cases hfree : (takeLocks (g.locks.drop taken)).2 with
  | false =>
    rw [updateFrom_eq, hfree, if_neg Bool.false_ne_true]
    exact Or.inr ⟨fun _ _ => rfl, rfl, rfl, rfl⟩
  | true =>
    obtain ⟨houtcome, locks, hfinal⟩ := updateFrom_of_free tier hfree
    obtain ⟨count, hcount⟩ := snd_suppresses tier (g.locked taken)
    rw [houtcome, hfinal, refreshUnlessSuppressed_eq, suppresses_locked, hcount]
    cases (g.suppresses tier).1 with
    | true => exact Or.inr ⟨nofun, rfl, rfl, rfl⟩
    | false =>
      rcases refresh_run tier { g.locked taken with suppressCount := count } with
        ⟨hcommands, hheld, g₂, started, replies, hall, hend⟩ | ⟨hheld, hsame⟩
      · refine Or.inl ⟨rfl, hcommands, hheld, count, g₂, started, replies, locks, hall, ?_⟩
        rw [if_neg Bool.false_ne_true, hend]
      · exact Or.inr ⟨fun _ => hheld, hsame.tiers, hsame.sequence, hsame.journal⟩

/-! ### What a refresh leaves behind -/

/-- A refresh that completes has stored its replies, told its listeners and made its record. -/
theorem completedRefresh_of_completes (hg : g.TablesKept) (h : Completes taken tier g) :
    CompletedRefresh (g.notice taken tier) g (finalState (updateFrom taken tier g)) := by
  obtain ⟨hcarried, hnames, hheld⟩ := h
  -- it is the first of the two cases, as the second one would have lost the link
  rcases updateFrom_run taken tier g with
    ⟨-, -, -, count, g₂, started, replies, locks, hall, hfinal⟩ | ⟨hnot, -⟩
  · obtain ⟨hcommands, hexchanged, -⟩ := transactAll_ok hall
    have hdata := transactAll_sameData (g.table tier).commands
      { g.locked taken with suppressCount := count }
    rw [hall] at hdata
    have htiers : g₂.tiers = g.tiers := hdata.tiers
    have hsequence : g₂.sequence = g.sequence := hdata.sequence
    have hjournal : g₂.journal = g.journal := hdata.journal
    have hlocks : g₂.locks = (g.locked taken).locks := hdata.locks
    have htable : (g₂.stored tier replies).table =
        replies.foldl VariableTable.storeReply (g.table tier) := by
      rw [Gateway.stored, Stored.table_replies, table, table, htiers]
    -- what is kept for the tier then
    have hget : ∀ started locks, PerTier.get
        { g₂.completed tier started replies with locks : Gateway σ κ ω }.tiers tier = _ :=
      fun started locks => PerTier.get_set_self g₂.tiers tier _
    have hnotice : g.notice taken tier = ⟨tier, (g₂.stored tier replies).table, g₂.locks⟩ := by
      rw [notice, hfinal, table, hget, hlocks]
    rw [hnotice, hfinal]
    refine ⟨⟨replies, hcommands, hexchanged, ?_⟩, ?_, ?_, ?_, ?_, ?_, ?_⟩
    · rw [table, hget]
      exact htable
    · rw [table, hget]
    · rw [hget, notifyAll_eq, htiers]
    · rw [← hjournal, ← htiers]
      exact congrArg (g₂.journal ++ ·) (congrArg Prod.snd (notifyAll_eq _ _))
    · exact congrArg (· + 1) hsequence
    · rw [lastUpdate, hget, hsequence]
      exact ⟨_, _, rfl⟩
    · intro other hother
      rw [← htiers]
      exact PerTier.get_set_ne g₂.tiers _ hother
  · rw [hnot hcarried (hg.commands_ne_nil hnames)] at hheld
    exact absurd hheld Bool.false_ne_true

/-- Any other refresh leaves all records as they were. -/
theorem sameRecords_of_not_completes (hg : g.TablesKept) (h : ¬ Completes taken tier g) :
    SameRecords g (finalState (updateFrom taken tier g)) := by
  rcases updateFrom_run taken tier g with ⟨hcarried, hcommands, hheld, -⟩ | ⟨-, hsame⟩
  · refine absurd ⟨hcarried, fun hnone => ?_, hheld⟩ h
    exact hcommands ((VariableTable.commands_eq_nil_iff (hg tier)).mpr hnone)
  · exact hsame

end Gateway

end PmacPoll
