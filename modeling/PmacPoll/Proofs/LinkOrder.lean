import PmacPoll.ChangeLog
import PmacPoll.Endpoint
import PmacPoll.Proofs.FrameOrder
import PmacPoll.Proofs.GatewayRuns
import PmacPoll.Proofs.StoredReplies

/-!
# The connection over a run

What a gateway does on its link follows from whether the connection stands, and the other way
round: `LinkState.after` is the whole rule, and every run keeps to it, `run_linkOrder`. Over a
recorded transport every call is one of a deed that the rule admits, so that after a failed exchange
nothing is sent before the transport was connected anew, and then only the empty command.

Without a connection commands and refreshes fail at once, and nothing is called,
`immediate_disconnected` and `updateFrom_disconnected`.
-/

namespace PmacPoll

open Running

variable {σ κ ω : Type}

/-- Where a deed leads to, if it may be done: a command on a connection that stands, the empty
    command right after the transport is connected, and connecting the transport otherwise. -/
def LinkState.after : LinkState → Gateway.Deed → Option LinkState
  | connected, .exchange _ replied => some (if replied then connected else disconnected)
  | connecting, .exchange command replied =>
    if command = "" then some (if replied then connected else disconnected) else none
  | disconnected, .reconnect ok => some (if ok then connecting else disconnected)
  | _, _ => none

namespace Gateway

/-! ### Deeds in order -/

section Deeds

variable {s s' : LinkState} {deed : Deed} {before later : List Deed}

/-- A rule that admits some deeds admits the first, and the others after it. -/
private theorem after_cons (h : (deed :: later).foldlM LinkState.after s = some s') :
    ∃ s₁, s.after deed = some s₁ ∧ later.foldlM LinkState.after s₁ = some s' := by
  rw [List.foldlM_cons] at h
  exact Option.bind_eq_some_iff.mp h

/-- A rule that admits deeds in a row admits them in two parts. -/
private theorem after_append (h : (before ++ later).foldlM LinkState.after s = some s') :
    ∃ s₁, before.foldlM LinkState.after s = some s₁ ∧
      later.foldlM LinkState.after s₁ = some s' := by
  rw [List.foldlM_append] at h
  exact Option.bind_eq_some_iff.mp h

/-- A failed exchange leaves no connection. -/
private theorem eq_disconnected_of_failed {command : String}
    (h : s.after (.exchange command false) = some s') : s' = .disconnected := by
  cases s with
  | disconnected => exact nomatch h
  | connecting =>
    rw [LinkState.after] at h
    split at h
    · exact (Option.some.inj h).symm
    · exact nomatch h
  | connected => exact (Option.some.inj h).symm

/-- After a failed exchange nothing is done, or the transport is connected anew. -/
private theorem reconnect_of_failed {command : String}
    (h : (before ++ .exchange command false :: later).foldlM LinkState.after s = some s') :
    later = [] ∨ ∃ ok rest, later = .reconnect ok :: rest := by
  obtain ⟨s₁, -, h₁⟩ := after_append h
  obtain ⟨s₂, hfailed, h₂⟩ := after_cons h₁
  obtain rfl := eq_disconnected_of_failed hfailed
  -- the rule admits nothing but connecting anew where the connection is gone
  cases later with
  | nil => exact Or.inl rfl
  | cons deed rest =>
    obtain ⟨s₃, hnext, -⟩ := after_cons h₂
    cases deed with
    | exchange => exact nomatch hnext
    | reconnect ok => exact Or.inr ⟨ok, rest, rfl⟩

/-- As long as there is no connection and no exchange gets a reply, an exchange is the empty one
    right after the transport is connected. -/
private theorem probe_of_unconnected {command : String} {replied : Bool}
    (h : (before ++ .exchange command replied :: later).foldlM LinkState.after s = some s')
    (hs : s ≠ .connected) (hnone : ∀ c, .exchange c true ∉ before) :
    command = "" ∧
      ((before = [] ∧ s = .connecting) ∨ ∃ others, before = others ++ [.reconnect true]) := by
  -- on what was done before the exchange, which makes no connection
  induction before generalizing s with
  | nil =>
    obtain ⟨s₁, hprobe, -⟩ := after_cons h
    -- with nothing done before, only a gateway that is connecting admits a probe
    cases s with
    | disconnected => exact nomatch hprobe
    | connected => exact absurd rfl hs
    | connecting =>
      rw [LinkState.after] at hprobe
      split at hprobe
      · next hempty => exact ⟨hempty, Or.inl ⟨rfl, rfl⟩⟩
      · exact nomatch hprobe
  | cons deed rest ih =>
    obtain ⟨s₁, hdeed, hrest⟩ := after_cons h
    obtain ⟨hnot, hnone⟩ : (∀ c, deed ≠ .exchange c true) ∧ ∀ c, .exchange c true ∉ rest :=
      ⟨fun c hc => hnone c (hc ▸ List.mem_cons_self),
        fun c hc => hnone c (List.mem_cons_of_mem deed hc)⟩
    -- where the first deed leads, there is no connection yet
    have hs₁ : s₁ ≠ .connected ∧ (s₁ = .connecting → deed = .reconnect true) := by
      cases deed with
      | exchange c r =>
        cases r with
        | true => exact absurd rfl (hnot c)
        | false =>
          obtain rfl := eq_disconnected_of_failed hdeed
          exact ⟨nofun, nofun⟩
      | reconnect ok =>
        cases s with
        | disconnected =>
          obtain rfl := Option.some.inj hdeed
          cases ok with
          | true => exact ⟨nofun, fun _ => rfl⟩
          | false => exact ⟨nofun, nofun⟩
        | connecting | connected => exact nomatch hdeed
    obtain ⟨hempty, ⟨rfl, hconnecting⟩ | ⟨others, rfl⟩⟩ := ih hrest hs₁.1 hnone
    · exact ⟨hempty, Or.inr ⟨[], by rw [hs₁.2 hconnecting]; rfl⟩⟩
    · exact ⟨hempty, Or.inr ⟨deed :: others, rfl⟩⟩

end Deeds

/-! ### Steps keep to the rule -/

section Steps

variable [Transport σ] [Listener κ ω] {g g' : Gateway σ κ ω} {deeds : List Deed}

omit [Transport σ] [Listener κ ω] in
/-- Between operations there is a connection or there is none. -/
private theorem eq_disconnected_of_settled (hg : g.Settled) (h : g.isConnected = false) :
    g.linkState = .disconnected := by
  cases hstate : g.linkState with
  | disconnected => rfl
  | connecting => exact absurd hstate hg
  | connected => exact nomatch h.symm.trans ((isConnected_iff g).mpr hstate)

/-- What one step does on the link is what the rule admits where it begins. -/
theorem Step.after (h : Step g deeds g') (hg : g.Settled) :
    deeds.foldlM LinkState.after g.linkState = some g'.linkState := by
  cases h with
  | considered tier =>
    obtain ⟨count, h⟩ := snd_suppresses tier g
    rw [h]
    rfl
  | replied hconnected hexchange =>
    obtain ⟨x, channel, -, -, rfl⟩ := exchange_ok hexchange
    rw [hconnected]
    rfl
  | lost hconnected =>
    rw [hconnected]
    rfl
  | refused hgone | proved hgone | unproved hgone =>
    -- the transport is connected only if there is no connection, nor one being set up
    rw [eq_disconnected_of_settled hg hgone]
    rfl
  | _ => rfl

/-- So is what a run does, step by step. -/
theorem Steps.after (h : Steps g deeds g') (hg : g.Settled) :
    deeds.foldlM LinkState.after g.linkState = some g'.linkState := by
  induction h with
  | refl => rfl
  | head hstep _ ih =>
    rw [List.foldlM_append, hstep.after hg]
    exact ih (hstep.settled hg)

/-- A step that makes an exchange makes it on a connection that stands, or right after connecting
    the transport. -/
theorem Step.exchange {before after : List Deed} {command : String} {replied : Bool}
    (h : Step g (before ++ .exchange command replied :: after) g') :
    (before = [] ∧ after = [] ∧ g.linkState = .connected) ∨
      (command = "" ∧ ∃ others, before = others ++ [.reconnect true]) := by
  have hnonempty : ∀ l : List Deed, l ++ .exchange command replied :: after ≠ [] :=
    fun l => List.append_ne_nil_of_right_ne_nil l (List.cons_ne_nil _ _)
  generalize hall : before ++ .exchange command replied :: after = all at h
  -- a step does two things at most, so there are few places for the exchange
  cases h with
  | replied hconnected | lost hconnected =>
    obtain ⟨rfl, hsame⟩ | ⟨rest, -, hrest⟩ := List.append_eq_cons_iff.mp hall
    · exact Or.inl ⟨rfl, (List.cons.inj hsame).2, hconnected⟩
    · exact absurd hrest.symm (hnonempty rest)
  | proved | unproved =>
    obtain ⟨rfl, hsame⟩ | ⟨rest, rfl, hrest⟩ := List.append_eq_cons_iff.mp hall
    · exact nomatch (List.cons.inj hsame).1
    · obtain ⟨rfl, hsame⟩ | ⟨rest', -, hrest'⟩ := List.append_eq_cons_iff.mp hrest.symm
      · exact Or.inr ⟨(Deed.exchange.inj (List.cons.inj hsame).1).1, [], rfl⟩
      · exact absurd hrest'.symm (hnonempty rest')
  | refused =>
    obtain ⟨rfl, hsame⟩ | ⟨rest, -, hrest⟩ := List.append_eq_cons_iff.mp hall
    · exact nomatch (List.cons.inj hsame).1
    · exact absurd hrest.symm (hnonempty rest)
  | _ => exact absurd hall (hnonempty before)

/-- An exchange is made on a connection that stands, or it is the empty one right after the
    transport is connected. -/
theorem Steps.exchange {before after : List Deed} {command : String} {replied : Bool}
    (h : Steps g (before ++ .exchange command replied :: after) g') :
    (∃ g₁ g₂, Steps g before g₁ ∧ g₁.linkState = .connected ∧
      Step g₁ [.exchange command replied] g₂ ∧ Steps g₂ after g') ∨
    (command = "" ∧ ∃ others, before = others ++ [.reconnect true]) := by
  generalize hall : before ++ .exchange command replied :: after = all at h
  induction h generalizing before with
  | refl => exact absurd hall (List.append_ne_nil_of_right_ne_nil _ (List.cons_ne_nil _ _))
  | @head g g₁ g₂ deeds later hstep hsteps ih =>
    -- the exchange is one of the later steps, or it is this one
    have hlater : ∀ rest, before = deeds ++ rest →
        rest ++ .exchange command replied :: after = later →
        (∃ g₁ g₂', Steps g before g₁ ∧ g₁.linkState = .connected ∧
          Step g₁ [.exchange command replied] g₂' ∧ Steps g₂' after g₂) ∨
        (command = "" ∧ ∃ others, before = others ++ [.reconnect true]) := by
      rintro rest rfl hrest
      obtain ⟨g₃, g₄, hbefore, hconnected, hexchange, hafter⟩ | ⟨hempty, others, rfl⟩ := ih hrest
      · exact Or.inl ⟨g₃, g₄, .head hstep hbefore, hconnected, hexchange, hafter⟩
      · exact Or.inr ⟨hempty, deeds ++ others, by rw [List.append_assoc]⟩
    -- where the deeds of this step end
    obtain ⟨rest, hdeeds, hrest⟩ | ⟨rest, hbefore, hrest⟩ := List.append_eq_append_iff.mp hall
    · cases rest with
      | nil => exact hlater [] (by rw [hdeeds, List.append_nil, List.append_nil]) hrest
      | cons deed rest =>
        obtain ⟨rfl, rfl⟩ := List.cons.inj hrest
        rw [hdeeds] at hstep
        obtain ⟨rfl, rfl, hconnected⟩ | hprobe := hstep.exchange
        · exact Or.inl ⟨g, g₁, .refl g, hconnected, hstep, hsteps⟩
        · exact Or.inr hprobe
    · exact hlater rest hbefore hrest.symm

/-! ### Tables -/

omit [Transport σ] [Listener κ ω] in
/-- What holds of every tier still does after one of them is set. -/
theorem forall_get_set {P : Tier → TierState κ → Prop} {tiers : PerTier (TierState κ)}
    {tier : Tier} {state : TierState κ} (h : ∀ other, other ≠ tier → P other (tiers.get other))
    (hstate : P tier state) (other : Tier) : P other ((tiers.set tier state).get other) := by
  by_cases hother : other = tier
  · rw [hother, PerTier.get_set_self]
    exact hstate
  · rw [PerTier.get_set_ne _ _ hother]
    exact h other hother

/-- The commands of every tier ask for its names. -/
def TablesKept (g : Gateway σ κ ω) : Prop := ∀ tier, (g.table tier).Kept

/-- One step keeps every table as its operations do. -/
theorem Step.tablesKept (h : Step g deeds g') (hg : g.TablesKept) : g'.TablesKept := by
  -- all that is to be shown is that a table which is put in the place of another is kept
  have hset : ∀ {tier : Tier} {state : TierState κ}, state.table.Kept →
      ∀ other, ((g.tiers.set tier state).get other).table.Kept :=
    forall_get_set (P := fun _ state => state.table.Kept) fun other _ => hg other
  -- only three steps put a table in the place of another
  cases h with
  | addVariables tier names =>
    exact hset (VariableTable.kept_addAll (hg tier) names)
  | removeVariable tier name =>
    exact hset (VariableTable.kept_remove (hg tier) name)
  | register listener tier =>
    exact hset (hg tier)
  | considered tier =>
    obtain ⟨count, h⟩ := snd_suppresses tier g
    rw [h]
    exact hg
  | @completed tier started replies =>
    exact hset (Stored.kept_replies (s := ⟨g.table tier, g.counters, none⟩) (hg tier) replies).1
  -- an exchange touches the figures and the link, and no table
  | replied _ hexchange | proved _ _ hexchange =>
    obtain ⟨x, channel, -, -, rfl⟩ := exchange_ok hexchange
    exact hg
  | lost _ hexchange | unproved _ _ hexchange =>
    obtain ⟨cause, channel, -, -, rfl⟩ := exchange_failed hexchange
    exact hg
  | _ => exact hg

/-- So does a run. -/
theorem Steps.tablesKept (h : Steps g deeds g') (hg : g.TablesKept) : g'.TablesKept := by
  induction h with
  | refl => exact hg
  | head hstep _ ih => exact ih (hstep.tablesKept hg)

omit [Transport σ] [Listener κ ω] in
/-- A table with a name has a command to ask for it. -/
theorem TablesKept.commands_ne_nil (hg : g.TablesKept) {tier : Tier}
    (hnames : (g.table tier).names ≠ []) : (g.table tier).commands ≠ [] :=
  fun hnone => hnames ((VariableTable.commands_eq_nil_iff (hg tier)).mp hnone)

/-! ### Without a connection -/

omit [Listener κ ω] in
/-- A single command fails without a connection, and nothing changes. -/
theorem immediate_disconnected (h : g.linkState = .disconnected) (command : String) :
    immediate command g = .error (.failed .disconnected) g := by
  have hgone : g.isConnected = false := by
    rw [isConnected, h]
    rfl
  rw [immediate, bind_run, transact_eq, if_neg (by rw [hgone]; decide)]

omit [Listener κ ω] in
/-- The first command of a refresh fails without a connection, so that all of them do. -/
theorem transactAll_disconnected {commands : List String} (h : g.isConnected = false)
    (hne : commands ≠ []) : transactAll commands g = .error (.failed .disconnected) g := by
  cases commands with
  | nil => exact absurd rfl hne
  | cons command more =>
    rw [transactAll_cons, transact_eq, if_neg (by rw [h]; decide)]

/-- Without a connection a refresh fails before it calls anything. Its locks, its count of questions
    and the time that it took are all that changes. -/
theorem updateFrom_disconnected {taken : Nat} {tier : Tier} (h : g.linkState = .disconnected)
    (hsuppressed : (g.suppresses tier).1 = false) (hcommands : (g.table tier).commands ≠ [])
    (hlocks : (takeLocks (g.locks.drop taken)).2 = true) :
    ∃ locks suppressCount updateTime, updateFrom taken tier g =
      .error (.failed .disconnected) { g with locks, suppressCount, updateTime } := by
  -- the locks and the suppression leave the connection gone, and the first command is refused
  have hgone : g.isConnected = false := by
    rw [isConnected, h]
    rfl
  have hcarried : ((g.locked taken).suppresses tier).1 = false := by
    rw [suppresses_locked, hsuppressed]
  obtain ⟨count, hcount⟩ := snd_suppresses tier (g.locked taken)
  rw [updateFrom_eq, if_pos hlocks, refreshUnlessSuppressed_eq, if_neg (by rw [hcarried]; decide),
    hcount, refresh_eq, if_neg (by exact hcommands)]
  have htransact : transactAll (({ g.locked taken with
      suppressCount := count } : Gateway σ κ ω).table tier).commands
      { g.locked taken with suppressCount := count } = _ :=
    transactAll_disconnected hgone hcommands
  rw [htransact]
  exact ⟨_, _, _, rfl⟩

end Steps

/-! ### Calls on record -/

section Calls

variable [Transport σ] {c c₁ c₂ : Channel (Recorded σ)}

/-- The calls that a deed is made of. -/
def Deed.Fits (config : Channel.Config) : Deed → List Call → Prop
  | .exchange command replied, calls =>
    Channel.Commanded config (Utf8.encode command) calls ∧
      (replied = true → (Frame.ofCommand (Utf8.encode command)).encode ∈ written calls)
  | .reconnect ok, calls => ∃ result, calls = [.reconnect result] ∧ (ok = true ↔ result = .ok ())

/-- What is on record from one channel to another, deed by deed. -/
structure History (c c' : Channel (Recorded σ)) (history : List (Deed × List Call)) : Prop where
  calls : c'.link.calls = c.link.calls ++ history.flatMap Prod.snd
  fits : ∀ entry ∈ history, entry.1.Fits c.config entry.2
  config : c'.config = c.config

omit [Transport σ] in
/-- Nothing done is on record with no calls. -/
theorem History.refl (c : Channel (Recorded σ)) : History c c [] :=
  ⟨(List.append_nil _).symm, nofun, rfl⟩

omit [Transport σ] in
/-- What is on record goes on with what is done next. -/
theorem History.trans {history later : List (Deed × List Call)} (h : History c c₁ history)
    (h' : History c₁ c₂ later) : History c c₂ (history ++ later) where
  calls := by rw [h'.calls, h.calls, List.flatMap_append, List.append_assoc]
  fits := by
    intro entry hentry
    obtain hentry | hentry := List.mem_append.mp hentry
    · exact h.fits entry hentry
    · exact h.config ▸ h'.fits entry hentry
  config := h'.config.trans h.config

omit [Transport σ] in
/-- A single deed with its calls is on record. -/
theorem History.single {deed : Deed} {calls : List Call}
    (hcalls : c₁.link.calls = c.link.calls ++ calls) (hfits : deed.Fits c.config calls)
    (hconfig : c₁.config = c.config) : History c c₁ [(deed, calls)] where
  calls := by rw [hcalls, List.flatMap_singleton]
  fits := List.forall_mem_singleton.mpr hfits
  config := hconfig

/-- An exchange is on record, and whether it got its reply. -/
private theorem history_exchange (command : String) (c : Channel (Recorded σ)) :
    ∃ calls, History c (finalState (Channel.writeRead (Utf8.encode command) c))
      [(.exchange command (outcome (Channel.writeRead (Utf8.encode command) c)).isOk, calls)] := by
  obtain ⟨calls, hcalls, hcommanded, hmem⟩ := Channel.writeRead_calls (Utf8.encode command) c
  exact ⟨calls, .single hcalls ⟨hcommanded, hmem⟩ (Channel.config_writeRead _ c)⟩

/-- Connecting is on record, and whether it was successful. -/
private theorem history_reconnect (c : Channel (Recorded σ)) :
    ∃ calls, History c (finalState (Channel.reconnect c))
      [(.reconnect (outcome (Channel.reconnect c)).isOk, calls)] := by
  obtain ⟨result, hcalls, hresult, hconfig⟩ := Channel.reconnect_calls c
  exact ⟨_, .single hcalls ⟨result, rfl, hresult⟩ hconfig⟩

variable [Listener κ ω] {g g' : Gateway (Recorded σ) κ ω} {deeds : List Deed}

/-- The calls of a step are those of its deeds. -/
theorem Step.history (h : Step g deeds g') :
    ∃ history, history.map Prod.fst = deeds ∧ History g.channel g'.channel history := by
  -- what is handed over is that of the exchange, of the reconnection, or of both
  cases h with
  | considered tier =>
    obtain ⟨count, h⟩ := snd_suppresses tier g
    rw [h]
    exact ⟨[], rfl, .refl _⟩
  | @replied _ command _ _ hexchange =>
    obtain ⟨x, channel, hwrite, -, rfl⟩ := exchange_ok hexchange
    obtain ⟨calls, hhistory⟩ := history_exchange command g.channel
    rw [hwrite] at hhistory
    exact ⟨_, rfl, hhistory⟩
  | @lost _ command _ _ hexchange =>
    obtain ⟨cause, channel, hwrite, -, rfl⟩ := exchange_failed hexchange
    obtain ⟨calls, hhistory⟩ := history_exchange command g.channel
    rw [hwrite] at hhistory
    exact ⟨_, rfl, hhistory⟩
  | refused _ hdial =>
    obtain ⟨calls, hhistory⟩ := history_reconnect g.channel
    rw [hdial] at hhistory
    exact ⟨_, rfl, hhistory⟩
  -- two deeds, as the probe is an exchange of its own
  | @proved _ dialled _ _ hdial hexchange =>
    obtain ⟨x, channel, hwrite, -, rfl⟩ := exchange_ok hexchange
    obtain ⟨calls, hhistory⟩ := history_reconnect g.channel
    obtain ⟨later, hlater⟩ := history_exchange "" dialled
    rw [hdial] at hhistory
    rw [hwrite] at hlater
    exact ⟨_, rfl, hhistory.trans hlater⟩
  | @unproved _ dialled _ _ hdial hexchange =>
    obtain ⟨cause, channel, hwrite, -, rfl⟩ := exchange_failed hexchange
    obtain ⟨calls, hhistory⟩ := history_reconnect g.channel
    obtain ⟨later, hlater⟩ := history_exchange "" dialled
    rw [hdial] at hhistory
    rw [hwrite] at hlater
    exact ⟨_, rfl, hhistory.trans hlater⟩
  | _ => exact ⟨[], rfl, .refl _⟩

/-- The calls of a run are those of its deeds, in their order. -/
theorem Steps.history (h : Steps g deeds g') :
    ∃ history, history.map Prod.fst = deeds ∧ History g.channel g'.channel history := by
  induction h with
  | refl => exact ⟨[], rfl, .refl _⟩
  | head hstep _ ih =>
    obtain ⟨history, rfl, hhistory⟩ := hstep.history
    obtain ⟨later, rfl, hlater⟩ := ih
    exact ⟨history ++ later, List.map_append, hhistory.trans hlater⟩

end Calls

/-! ### A run -/

section Run

variable [Transport σ] [Listener κ ω] {start g : Gateway (Recorded σ) κ ω}
  {history : List (Deed × List Call)}

/-- What a run from one gateway to another does on the link, deed by deed, each with its calls. -/
structure LinkOrder (start g : Gateway (Recorded σ) κ ω) (history : List (Deed × List Call)) :
    Prop where
  /-- The calls on record are those of the deeds. -/
  record : History start.channel g.channel history
  steps : Steps start (history.map Prod.fst) g
  /-- After a failed exchange the next call of any kind connects the transport anew. -/
  reconnects : ∀ before command calls after,
    history = before ++ (.exchange command false, calls) :: after →
    after.flatMap Prod.snd = [] ∨ ∃ result rest, after.flatMap Prod.snd = .reconnect result :: rest
  /-- The command that is sent next is the empty one, right after the transport is connected. -/
  probes : ∀ before command calls between command' replied calls' after,
    history = before ++ (.exchange command false, calls) ::
      (between ++ (.exchange command' replied, calls') :: after) →
    (∀ entry ∈ between, ∀ bytes, (Frame.ofCommand bytes).encode ∉ written entry.2) →
    command' = "" ∧ ∃ others, between = others ++ [(.reconnect true, [.reconnect (.ok ())])]
  /-- Any other command is handed over on a connection that stands. -/
  commands : ∀ before command replied calls after,
    history = before ++ (.exchange command replied, calls) :: after →
    (∃ g₁ g₂, Steps start (before.map Prod.fst) g₁ ∧ g₁.linkState = .connected ∧
      Step g₁ [.exchange command replied] g₂ ∧ Steps g₂ (after.map Prod.fst) g) ∨
    (command = "" ∧ ∃ others, before = others ++ [(.reconnect true, [.reconnect (.ok ())])])

omit [Transport σ] in
/-- A history that ends with connecting the transport ends with that call. -/
private theorem eq_append_reconnect {config : Channel.Config} {others : List Deed}
    (hfits : ∀ entry ∈ history, entry.1.Fits config entry.2)
    (hothers : history.map Prod.fst = others ++ [.reconnect true]) :
    ∃ others, history = others ++ [(.reconnect true, [.reconnect (.ok ())])] := by
  obtain ⟨front, last, rfl, -, hlast⟩ := List.map_eq_append_iff.mp hothers
  obtain ⟨⟨deed, calls⟩, rfl, rfl⟩ := List.map_eq_singleton_iff.mp hlast
  obtain ⟨result, rfl, hresult⟩ := hfits (.reconnect true, calls) (by simp)
  obtain rfl := hresult.mp rfl
  exact ⟨front, rfl⟩

/-- The steps of a gateway that begins settled are in order. -/
private theorem linkOrder_of_steps {deeds : List Deed} (h : Steps start deeds g)
    (hstart : start.Settled) :
    ∃ history, LinkOrder start g history := by
  obtain ⟨history, rfl, hhistory⟩ := h.history
  have hafter := h.after hstart
  refine ⟨history, hhistory, h, ?_, ?_, ?_⟩
  · -- the rule admits nothing but connecting after the failed exchange
    rintro before command calls after rfl
    rw [List.map_append, List.map_cons] at hafter
    obtain hnone | ⟨ok, rest, hrest⟩ := reconnect_of_failed hafter
    · exact Or.inl (by rw [List.map_eq_nil_iff.mp hnone]; rfl)
    · obtain ⟨⟨deed, calls'⟩, later, rfl, rfl, -⟩ := List.map_eq_cons_iff.mp hrest
      obtain ⟨result, rfl, -⟩ := hhistory.fits (.reconnect ok, calls') (by simp)
      exact Or.inr ⟨result, _, rfl⟩
  · rintro before command calls between command' replied calls' after rfl hnone
    have hfits : ∀ entry ∈ between, entry.1.Fits start.channel.config entry.2 :=
      fun entry hentry => hhistory.fits entry (by simp [hentry])
    -- there was no reply, as that takes a command that is sent
    have hunreplied : ∀ c, .exchange c true ∉ between.map Prod.fst := by
      intro c hc
      obtain ⟨⟨deed, calls⟩, hentry, rfl⟩ := List.mem_map.mp hc
      exact hnone _ hentry _ ((hfits _ hentry).2 rfl)
    rw [List.map_append, List.map_cons, List.map_append, List.map_cons] at hafter
    -- the deeds before the failed exchange lead to some state, and it to no connection
    obtain ⟨s₁, -, h₁⟩ := after_append hafter
    obtain ⟨s₂, hfailed, h₂⟩ := after_cons h₁
    obtain rfl := eq_disconnected_of_failed hfailed
    obtain ⟨hempty, ⟨-, hconnecting⟩ | ⟨others, hothers⟩⟩ :=
      probe_of_unconnected h₂ nofun hunreplied
    · exact nomatch hconnecting
    · exact ⟨hempty, eq_append_reconnect hfits hothers⟩
  · -- whatever the exchange is, what the rule says of it is known for the deeds
    rintro before command replied calls after rfl
    rw [List.map_append, List.map_cons] at h
    obtain hconnected | ⟨hempty, others, hothers⟩ := h.exchange
    · exact Or.inl hconnected
    · exact Or.inr ⟨hempty, eq_append_reconnect
        (fun entry hentry => hhistory.fits entry (List.mem_append_left _ hentry)) hothers⟩

/-- Nothing is asked of the controller, and nothing that was counted or stored changes. -/
structure Refuses (g : Gateway (Recorded σ) κ ω) : Prop where
  immediate : ∀ command, immediate command g = .error (.failed .disconnected) g
  /-- A refresh that has something to ask for and is not suppressed, once it has its locks. -/
  update : ∀ taken tier, (g.suppresses tier).1 = false → (g.table tier).names ≠ [] →
    (takeLocks (g.locks.drop taken)).2 = true →
    ∃ locks suppressCount updateTime, updateFrom taken tier g =
      .error (.failed .disconnected) { g with locks, suppressCount, updateTime }

omit [Transport σ] [Listener κ ω] in
/-- A gateway that was just made has empty tables. -/
theorem tablesKept_new (link : σ) (config : Channel.Config) (locks : Nat) (connected : Bool) :
    (new link config locks connected : Gateway σ κ ω).TablesKept := by
  intro tier
  cases tier <;> exact VariableTable.kept_empty

/-- **The connection over a run.** A gateway is made, connected or not, over any transport, with a
    record of the calls on it. After any run of operations and scheduler cycles the connection
    stands or it does not. What was done on the link was in order: after a failed exchange nothing
    was called before the transport was connected anew, the command that was sent next was the empty
    one right after that, and any other was handed over on a connection that stood. Without a
    connection commands and refreshes are refused. -/
theorem run_linkOrder {link : σ} {config : Channel.Config} {locks : Nat} {connected : Bool}
    (h : Run (.new ⟨link, []⟩ config locks connected) g) :
    (g.linkState = .connected ∨ g.linkState = .disconnected) ∧
    (∃ history, LinkOrder (.new ⟨link, []⟩ config locks connected) g history ∧
      g.channel.link.calls = history.flatMap Prod.snd) ∧
    (g.linkState = .disconnected → g.Refuses) := by
  obtain ⟨deeds, hsteps⟩ := steps_of_run h
  have hsettled := hsteps.settled (settled_new _ _ _ _)
  refine ⟨?_, ?_, fun hgone => ⟨immediate_disconnected hgone, ?_⟩⟩
  · -- of the three states of a connection one is not met between operations
    cases hstate : g.linkState with
    | connected => exact Or.inl rfl
    | disconnected => exact Or.inr rfl
    | connecting => exact absurd hstate hsettled
  · obtain ⟨history, horder⟩ := linkOrder_of_steps hsteps (settled_new _ _ _ _)
    exact ⟨history, horder, horder.record.calls⟩
  · intro taken tier hsuppressed hnames hlocks
    exact updateFrom_disconnected hgone hsuppressed
      ((hsteps.tablesKept (tablesKept_new _ _ _ _)).commands_ne_nil hnames) hlocks

/-- A gateway that takes an endpoint for connected that was never dialled. -/
def undialledGateway : Gateway (Recorded Endpoint) ChangeLog Change :=
  .new ⟨{ host := "pmac" }, []⟩ {} 0 true

/-- A gateway over an endpoint that was never dialled: the first command fails, the connection is
    refused, and the next command is not sent any more. -/
theorem run_linkOrder_undialled : ∃ g : Gateway (Recorded Endpoint) ChangeLog Change,
    Run undialledGateway g ∧ g.linkState = .disconnected ∧
      g.channel.link.calls =
        [.write Frame.flush.encode (.error Endpoint.notConnected),
          .reconnect (.error Endpoint.notConnected)] ∧
      immediate "P1" g = .error (.failed .disconnected) g := by
  -- the two operations can be run as they are
  have hfirst : ∃ g, ended ((Operation.immediate "P1").run undialledGateway) = some g ∧
      ∃ g', ended (Operation.checkConnection.run g) = some g' ∧ g'.linkState = .disconnected ∧
        g'.channel.link.calls =
          [.write Frame.flush.encode (.error Endpoint.notConnected),
            .reconnect (.error Endpoint.notConnected)] :=
    ⟨_, rfl, _, rfl, rfl, rfl⟩
  obtain ⟨g, hlost, g', hrefused, hgone, hcalls⟩ := hfirst
  have hrun : Run undialledGateway g' :=
    .operation .checkConnection (.operation (.immediate "P1") .start hlost) hrefused
  exact ⟨g', hrun, hgone, hcalls, ((run_linkOrder hrun).2.2 hgone).immediate "P1"⟩

end Run

end Gateway

end PmacPoll
