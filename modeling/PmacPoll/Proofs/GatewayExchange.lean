import PmacPoll.Gateway.Refresh
import PmacPoll.Proofs.Actions

/-!
# What an exchange does to a gateway

The operations of `Gateway.Exchange` written out, one equation each, so that later proofs split on
what the channel does and never open a monadic program: `exchange_eq`, `transact_eq` and
`ensureConnected_eq`.

An exchange touches the connection and what is counted on it, and nothing else: `SameData`.

`transactAll_ok` and `transactAll_failed` say what sending the commands of a refresh comes to.
Either all of them are handed to the channel in order and each gets its reply, `Exchanged`, or the
first few are and the last of those fails, `Broken`. Conversely, what the channel answers comes back
as the replies, `transactAll_of_exchanged`.
-/

namespace PmacPoll

/-- Some commands handed to a channel in order, each of which got its reply. -/
inductive Channel.Exchanged {σ : Type} [Transport σ] :
    Channel σ → List (String × Reply) → Channel σ → Prop where
  | nil (c : Channel σ) : Exchanged c [] c
  | cons {c c₁ c₂ : Channel σ} {command : String} {x : Exchange}
      {more : List (String × Reply)} :
      Channel.writeRead (Utf8.encode command) c = .ok x c₁ → Exchanged c₁ more c₂ →
      Exchanged c ((command, x.reply) :: more) c₂

/-- Some commands handed to a channel in order, of which the last failed with a cause and each one
    before it got its reply. -/
inductive Channel.Broken {σ : Type} [Transport σ] (cause : LinkError) :
    Channel σ → List String → Channel σ → Prop where
  | last {c c₁ : Channel σ} {command : String} :
      Channel.writeRead (Utf8.encode command) c = .error (.failed cause) c₁ →
      Broken cause c [command] c₁
  | cons {c c₁ c₂ : Channel σ} {command : String} {x : Exchange} {more : List String} :
      Channel.writeRead (Utf8.encode command) c = .ok x c₁ → Broken cause c₁ more c₂ →
      Broken cause c (command :: more) c₂

namespace Gateway

open Running

variable {σ κ ω : Type} [Transport σ]

/-! ### Equations -/

/-- The time that an exchange takes, from the channel before it to the channel after it. -/
def elapsed (before after : Channel σ) : Nat :=
  Transport.now after.link - Transport.now before.link

/-- An exchange is one of the channel, with its reply or its failure recorded. -/
theorem exchange_eq (command : String) (g : Gateway σ κ ω) :
    exchange command g =
      match Channel.writeRead (Utf8.encode command) g.channel with
      | .ok x channel =>
        .ok x.reply (recordReply x (elapsed g.channel channel) { g with channel })
      | .error (.failed cause) channel =>
        .error (.failed (.ofLink cause))
          (recordFailure cause (elapsed g.channel channel) { g with channel })
      | .error .unfinished channel => .error .unfinished { g with channel } := by
  simp only [exchange, now, onChannel, bind_run, pure_run, get_run]
  cases Channel.writeRead (Utf8.encode command) g.channel with
  | ok x channel => rfl
  | error stop channel => cases stop <;> rfl

/-- A command is an exchange on a connection that stands; if it fails, the connection is lost. -/
theorem transact_eq (command : String) (g : Gateway σ κ ω) :
    transact command g =
      if g.isConnected then
        match exchange command g with
        | .ok reply g' => .ok reply g'
        | .error (.failed cause) g' => .error (.failed cause) g'.loseConnection
        | .error .unfinished g' => .error .unfinished g'
      else .error (.failed .disconnected) g := by
  simp only [transact, attempt, bind_run, get_run, ite_run]
  split
  · cases exchange command g with
    | ok reply g' => rfl
    | error stop g' => cases stop <;> rfl
  · rfl

/-- The connection is left alone if it stands; otherwise the transport is connected anew and
    probed. -/
theorem ensureConnected_eq (g : Gateway σ κ ω) :
    ensureConnected g =
      if g.isConnected then .ok true g
      else
        match Channel.reconnect g.channel with
        | .ok () channel =>
          match exchange "" { g with linkState := .connecting, channel } with
          | .ok _ g' => .ok true g'.beginSession
          | .error (.failed _) g' => .ok false { g' with linkState := .disconnected }
          | .error .unfinished g' => .error .unfinished g'
        | .error (.failed _) channel => .ok false { g with linkState := .disconnected, channel }
        | .error .unfinished channel =>
          .error .unfinished { g with linkState := .connecting, channel } := by
  simp only [ensureConnected, onChannel, setLinkState, bind_run, pure_run, get_run,
    modify_run, ite_run]
  split
  · rfl
  · cases Channel.reconnect g.channel with
    -- what is refused and what is not answered are both the lack of a connection
    | error stop channel => cases stop <;> rfl
    | ok u channel =>
      simp only [bind_run, attempt]
      cases exchange "" { g with linkState := .connecting, channel } with
      | ok reply g' => rfl
      | error stop g' => cases stop <;> rfl

/-- Commands are sent one after another, up to the first that fails. -/
theorem transactAll_cons (command : String) (more : List String) (g : Gateway σ κ ω) :
    transactAll (command :: more) g =
      match transact command g with
      | .ok reply g₁ =>
        match transactAll more g₁ with
        | .ok replies g₂ => .ok ((command, reply) :: replies) g₂
        | .error stop g₂ => .error stop g₂
      | .error stop g₁ => .error stop g₁ := by
  simp only [transactAll, bind_run, pure_run]
  cases transact command g with
  | error stop g₁ => rfl
  | ok reply g₁ =>
    simp only
    cases transactAll more g₁ <;> rfl

/-! ### What it comes to -/

omit [Transport σ] in
/-- A gateway is connected if its link is, and not while it is connecting. -/
theorem isConnected_iff (g : Gateway σ κ ω) :
    g.isConnected = true ↔ g.linkState = .connected := by
  rw [isConnected]
  cases g.linkState <;> simp [LinkState.isConnected]

/-- An exchange that gives a reply got it from the channel. -/
theorem exchange_ok {command : String} {g g' : Gateway σ κ ω} {reply : Reply}
    (h : exchange command g = .ok reply g') :
    ∃ x channel, Channel.writeRead (Utf8.encode command) g.channel = .ok x channel ∧
      reply = x.reply ∧ g' = recordReply x (elapsed g.channel channel) { g with channel } := by
  rw [exchange_eq] at h
  cases hwrite : Channel.writeRead (Utf8.encode command) g.channel with
  | ok x channel =>
    rw [hwrite] at h
    obtain ⟨rfl, rfl⟩ := EStateM.Result.ok.inj h
    exact ⟨x, channel, rfl, rfl, rfl⟩
  | error stop channel =>
    rw [hwrite] at h
    cases stop <;> exact nomatch h

/-- An exchange that fails failed on the channel, and for the same cause. -/
theorem exchange_failed {command : String} {g g' : Gateway σ κ ω} {e : GatewayError}
    (h : exchange command g = .error (.failed e) g') :
    ∃ cause channel,
      Channel.writeRead (Utf8.encode command) g.channel = .error (.failed cause) channel ∧
      e = .ofLink cause ∧
      g' = recordFailure cause (elapsed g.channel channel) { g with channel } := by
  rw [exchange_eq] at h
  cases hwrite : Channel.writeRead (Utf8.encode command) g.channel with
  | ok x channel =>
    rw [hwrite] at h
    exact nomatch h
  | error stop channel =>
    rw [hwrite] at h
    cases stop with
    -- without an end there is no failure
    | unfinished => exact nomatch h
    | failed cause =>
      obtain ⟨he, rfl⟩ := EStateM.Result.error.inj h
      exact ⟨cause, channel, rfl, (Stop.failed.inj he).symm, rfl⟩

/-- Checking the connection does not fail: it tells that there is none. -/
theorem ensureConnected_ne_failed (g g' : Gateway σ κ ω) (e : GatewayError) :
    ensureConnected g ≠ .error (.failed e) g' := by
  rw [ensureConnected_eq]
  split
  · exact nofun
  · split
    · split <;> exact nofun
    · exact nofun
    · exact nofun

/-- Checking the connection tells whether it stands. -/
theorem connected_of_ensureConnected {g g' : Gateway σ κ ω} {stands : Bool}
    (h : ensureConnected g = .ok stands g') : g'.linkState = .connected ↔ stands = true := by
  -- the connection stood, or was set up anew, or the probe was not answered
  rw [ensureConnected_eq] at h
  split at h
  · next hconnected =>
    obtain ⟨rfl, rfl⟩ := EStateM.Result.ok.inj h
    exact ⟨fun _ => rfl, fun _ => (isConnected_iff g).mp hconnected⟩
  · split at h
    · split at h
      · obtain ⟨rfl, rfl⟩ := EStateM.Result.ok.inj h
        exact ⟨fun _ => rfl, fun _ => rfl⟩
      · obtain ⟨rfl, rfl⟩ := EStateM.Result.ok.inj h
        exact ⟨nofun, nofun⟩
      · exact nomatch h
    · obtain ⟨rfl, rfl⟩ := EStateM.Result.ok.inj h
      exact ⟨nofun, nofun⟩
    · exact nomatch h

/-- A probe that is answered makes the connection stand, and begins a session. -/
theorem ensureConnected_of_answered {g : Gateway σ κ ω} (hgone : ¬ g.isConnected = true)
    {c c' : Channel σ} {x : Exchange} (hdial : Channel.reconnect g.channel = .ok () c)
    (hprobe : Channel.writeRead (Utf8.encode "") c = .ok x c') :
    ∃ g', ensureConnected g = .ok true g' ∧ g'.channel = c' ∧ g'.isConnected = true ∧
      g'.newConnection = true := by
  rw [ensureConnected_eq, if_neg hgone, hdial]
  simp only [exchange_eq, hprobe]
  exact ⟨_, rfl, rfl, rfl, rfl⟩

/-- A reply on a connection that stands leaves it standing. -/
theorem transact_ok {command : String} {g g' : Gateway σ κ ω} {reply : Reply}
    (h : transact command g = .ok reply g') :
    g.isConnected = true ∧ g'.linkState = g.linkState ∧
      g'.statistics.messages = g.statistics.messages + 1 ∧
      ∃ x, Channel.writeRead (Utf8.encode command) g.channel = .ok x g'.channel ∧
        reply = x.reply := by
  rw [transact_eq] at h
  split at h
  · next hconnected =>
    cases hexchange : exchange command g with
    | ok reply' g₁ =>
      rw [hexchange] at h
      -- the reply is recorded, which leaves the state of the connection as it was
      obtain ⟨rfl, rfl⟩ := EStateM.Result.ok.inj h
      obtain ⟨x, channel, hwrite, hreply, rfl⟩ := exchange_ok hexchange
      exact ⟨hconnected, rfl, rfl, x, hwrite, hreply⟩
    | error stop g₁ =>
      rw [hexchange] at h
      cases stop <;> exact nomatch h
  · exact nomatch h

/-- An exchange that fails gives the connection up; without a connection there is no exchange. -/
private theorem transact_failed {command : String} {g g' : Gateway σ κ ω} {e : GatewayError}
    (h : transact command g = .error (.failed e) g') :
    (g.isConnected = false ∧ e = .disconnected ∧ g' = g) ∨
    (g.isConnected = true ∧ g'.linkState = .disconnected ∧
      g'.statistics.messages = g.statistics.messages + 1 ∧
      ∃ cause, Channel.writeRead (Utf8.encode command) g.channel =
          .error (.failed cause) g'.channel ∧ e = .ofLink cause) := by
  rw [transact_eq] at h
  split at h
  · next hconnected =>
    right
    -- an exchange that is answered is no failure
    cases hexchange : exchange command g with
    | ok reply g₁ =>
      rw [hexchange] at h
      exact nomatch h
    | error stop g₁ =>
      rw [hexchange] at h
      cases stop with
      | unfinished => exact nomatch h
      | failed e' =>
        obtain ⟨he, rfl⟩ := EStateM.Result.error.inj h
        obtain rfl := Stop.failed.inj he
        -- what failed was an exchange, after which the connection is given up
        obtain ⟨cause, channel, hwrite, hcause, rfl⟩ := exchange_failed hexchange
        exact ⟨hconnected, rfl, rfl, cause, hwrite, hcause⟩
  · next hconnected =>
    obtain ⟨he, rfl⟩ := EStateM.Result.error.inj h
    exact Or.inl ⟨by simpa using hconnected, (Stop.failed.inj he).symm, rfl⟩

/-- Commands that all got their replies were all handed to the channel. -/
theorem transactAll_ok {commands : List String} {g g' : Gateway σ κ ω}
    {replies : List (String × Reply)} (h : transactAll commands g = .ok replies g') :
    replies.map (·.1) = commands ∧ Channel.Exchanged g.channel replies g'.channel ∧
      g'.linkState = g.linkState ∧
      g'.statistics.messages = g.statistics.messages + UInt64.ofNat commands.length := by
  -- on the commands, of which the first one leads to where the others begin
  induction commands generalizing g replies with
  | nil =>
    obtain ⟨rfl, rfl⟩ := EStateM.Result.ok.inj h
    exact ⟨rfl, .nil _, rfl, (UInt64.add_zero _).symm⟩
  | cons command more ih =>
    rw [transactAll_cons] at h
    -- all commands were answered, the first one too
    cases htransact : transact command g with
    | error stop g₁ => rw [htransact] at h; exact nomatch h
    | ok reply g₁ =>
      cases hmore : transactAll more g₁ with
      | error stop g₂ => simp only [htransact, hmore] at h; exact nomatch h
      | ok replies' g₂ =>
        simp only [htransact, hmore] at h
        obtain ⟨rfl, rfl⟩ := EStateM.Result.ok.inj h
        obtain ⟨-, hstate, hcount, x, hwrite, rfl⟩ := transact_ok htransact
        obtain ⟨hcommands, hexchanged, hstate', hcount'⟩ := ih hmore
        -- each command is counted once
        refine ⟨by rw [List.map_cons, hcommands], .cons hwrite hexchanged, hstate'.trans hstate, ?_⟩
        rw [hcount', hcount, List.length_cons, Nat.add_comm, UInt64.ofNat_add, UInt64.add_assoc]
        rfl

/-- On a connection that stands, a command that the channel answers gets its reply. -/
theorem transact_of_answered {g : Gateway σ κ ω} (hconnected : g.isConnected = true)
    {command : String} {x : Exchange} {c : Channel σ}
    (hwrite : Channel.writeRead (Utf8.encode command) g.channel = .ok x c) :
    transact command g =
      .ok x.reply (recordReply x (elapsed g.channel c) { g with channel := c }) := by
  rw [transact_eq, if_pos hconnected, exchange_eq, hwrite]

/-- On a connection that stands, commands that the channel answers get their replies. -/
theorem transactAll_of_exchanged {g : Gateway σ κ ω} (hconnected : g.isConnected = true)
    {replies : List (String × Reply)} {c : Channel σ}
    (h : Channel.Exchanged g.channel replies c) :
    ∃ g', transactAll (replies.map (·.1)) g = .ok replies g' ∧ g'.channel = c := by
  -- on the exchanges; each of them leaves the connection standing
  generalize hchannel : g.channel = channel at h
  induction h generalizing g with
  | nil c => exact ⟨g, rfl, hchannel⟩
  | @cons c c₁ c₂ command x more hwrite _ ih =>
    rw [← hchannel] at hwrite
    have htransact := transact_of_answered hconnected hwrite
    obtain ⟨g', hmore, hc⟩ :=
      ih (g := recordReply x (elapsed g.channel c₁) { g with channel := c₁ }) hconnected rfl
    refine ⟨g', ?_, hc⟩
    rw [List.map_cons, transactAll_cons, htransact]
    simp only [hmore]

/-- Commands get their replies on a connection that stands. -/
theorem isConnected_of_transactAll {commands : List String} {g g' : Gateway σ κ ω}
    {replies : List (String × Reply)} (h : transactAll commands g = .ok replies g')
    (hne : commands ≠ []) : g.isConnected = true := by
  cases commands with
  | nil => exact absurd rfl hne
  | cons command more =>
    rw [transactAll_cons] at h
    cases htransact : transact command g with
    | error stop g₁ => rw [htransact] at h; exact nomatch h
    | ok reply g₁ => exact (transact_ok htransact).1

/-- Commands of which one failed were handed to the channel up to that one, and the connection is
    given up. Without a connection none was. -/
theorem transactAll_failed {commands : List String} {g g' : Gateway σ κ ω} {e : GatewayError}
    (h : transactAll commands g = .error (.failed e) g') :
    (g.isConnected = false ∧ e = .disconnected ∧ g' = g) ∨
    (g.isConnected = true ∧ g'.linkState = .disconnected ∧
      ∃ handed cause, handed <+: commands ∧
        Channel.Broken cause g.channel handed g'.channel ∧ e = .ofLink cause ∧
        g'.statistics.messages = g.statistics.messages + UInt64.ofNat handed.length) := by
  -- on the commands; the failure is that of the first one, or one of the others
  induction commands generalizing g with
  | nil => exact nomatch h
  | cons command more ih =>
    rw [transactAll_cons] at h
    cases htransact : transact command g with
    | error stop g₁ =>
      rw [htransact] at h
      obtain ⟨rfl, rfl⟩ := EStateM.Result.error.inj h
      -- the first command fails, without a connection or on the channel
      rcases transact_failed htransact with hgone | ⟨hconnected, hstate, hcount, cause, hwrite, he⟩
      · exact Or.inl hgone
      · exact Or.inr ⟨hconnected, hstate, [command], cause, ⟨more, rfl⟩, .last hwrite, he, hcount⟩
    | ok reply g₁ =>
      obtain ⟨hconnected, hstate, hcount, x, hwrite, rfl⟩ := transact_ok htransact
      cases hmore : transactAll more g₁ with
      | ok replies g₂ => simp only [htransact, hmore] at h; exact nomatch h
      | error stop g₂ =>
        simp only [htransact, hmore] at h
        obtain ⟨rfl, rfl⟩ := EStateM.Result.error.inj h
        rcases ih hmore with ⟨hgone, -, -⟩ |
          ⟨-, hstate', handed, cause, hprefix, hbroken, he, hcount'⟩
        · -- The connection stood before the first command, and a reply leaves it so.
          rw [isConnected, hstate, ← isConnected, hconnected] at hgone
          exact nomatch hgone
        · refine Or.inr ⟨hconnected, hstate', command :: handed, cause,
            (List.prefix_cons_inj command).mpr hprefix, .cons hwrite hbroken, he, ?_⟩
          rw [hcount', hcount, List.length_cons, Nat.add_comm, UInt64.ofNat_add,
            UInt64.add_assoc]
          rfl

/-! ### What stays as it is -/

/-- The two differ in the connection and in what was counted on it, and in nothing else. -/
structure SameData (g g' : Gateway σ κ ω) : Prop where
  tiers : g'.tiers = g.tiers
  suppressing : g'.suppressing = g.suppressing
  suppressCount : g'.suppressCount = g.suppressCount
  updateTime : g'.updateTime = g.updateTime
  sequence : g'.sequence = g.sequence
  locks : g'.locks = g.locks
  journal : g'.journal = g.journal

omit [Transport σ] in
/-- Nothing changes if nothing is done. -/
theorem SameData.refl (g : Gateway σ κ ω) : SameData g g :=
  ⟨rfl, rfl, rfl, rfl, rfl, rfl, rfl⟩

omit [Transport σ] in
/-- What keeps the data twice keeps them. -/
theorem SameData.trans {g₁ g₂ g₃ : Gateway σ κ ω} (h : SameData g₁ g₂) (h' : SameData g₂ g₃) :
    SameData g₁ g₃ where
  tiers := h'.tiers.trans h.tiers
  suppressing := h'.suppressing.trans h.suppressing
  suppressCount := h'.suppressCount.trans h.suppressCount
  updateTime := h'.updateTime.trans h.updateTime
  sequence := h'.sequence.trans h.sequence
  locks := h'.locks.trans h.locks
  journal := h'.journal.trans h.journal

omit [Transport σ] in
/-- The tables are the same, too. -/
theorem SameData.table_eq {g g' : Gateway σ κ ω} (h : SameData g g') (tier : Tier) :
    g'.table tier = g.table tier := by
  rw [table, table, h.tiers]

/-- An exchange changes what is counted on the connection alone. -/
private theorem exchange_sameData (command : String) (g : Gateway σ κ ω) :
    SameData g (finalState (exchange command g)) := by
  rw [exchange_eq]
  split <;> exact ⟨rfl, rfl, rfl, rfl, rfl, rfl, rfl⟩

/-- So does a command, which may lose the connection. -/
theorem transact_sameData (command : String) (g : Gateway σ κ ω) :
    SameData g (finalState (transact command g)) := by
  have h := exchange_sameData command g
  rw [transact_eq]
  -- an exchange that fails loses the connection, which is no data
  split
  · split
    · next heq => rw [heq] at h; exact h
    · next heq =>
      rw [heq] at h
      exact h.trans ⟨rfl, rfl, rfl, rfl, rfl, rfl, rfl⟩
    · next heq => rw [heq] at h; exact h
  · exact SameData.refl g

/-- So do commands one after another. -/
theorem transactAll_sameData (commands : List String) (g : Gateway σ κ ω) :
    SameData g (finalState (transactAll commands g)) := by
  induction commands generalizing g with
  | nil => exact SameData.refl g
  | cons command more ih =>
    have h := transact_sameData command g
    rw [transactAll_cons]
    cases htransact : transact command g with
    | error stop g₁ => rw [htransact] at h; exact h
    | ok reply g₁ =>
      rw [htransact] at h
      have h' := ih g₁
      simp only
      -- Whatever the later commands come to, they go on from here.
      cases hmore : transactAll more g₁ with
      | ok replies g₂ => rw [hmore] at h'; exact h.trans h'
      | error stop g₂ => rw [hmore] at h'; exact h.trans h'

/-- So does a check of the connection, which may begin a session. -/
theorem ensureConnected_sameData (g : Gateway σ κ ω) :
    SameData g (finalState (ensureConnected g)) := by
  rw [ensureConnected_eq]
  split
  · exact SameData.refl g
  · split
    · next channel _ =>
      -- the probe runs on a gateway that is connecting, with the data of the one before
      have h := exchange_sameData "" { g with linkState := .connecting, channel }
      have hg : SameData g { g with linkState := .connecting, channel } :=
        ⟨rfl, rfl, rfl, rfl, rfl, rfl, rfl⟩
      split
      · next heq =>
        rw [heq] at h
        exact (hg.trans h).trans ⟨rfl, rfl, rfl, rfl, rfl, rfl, rfl⟩
      · next heq =>
        rw [heq] at h
        exact (hg.trans h).trans ⟨rfl, rfl, rfl, rfl, rfl, rfl, rfl⟩
      · next heq => rw [heq] at h; exact hg.trans h
    · exact ⟨rfl, rfl, rfl, rfl, rfl, rfl, rfl⟩
    · exact ⟨rfl, rfl, rfl, rfl, rfl, rfl, rfl⟩

end Gateway

end PmacPoll
