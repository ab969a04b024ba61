import PmacPoll.ChangeLog
import PmacPoll.Proofs.DeviceExchange
import PmacPoll.Proofs.GatewayRefresh

/-!
# Refreshes whose commands are all answered

If the channel answers all commands of a tier, then a refresh of it comes to what the replies come
to when they are stored, `updateFrom_of_exchanged`. A device with a script makes the channel give
any answers, `exchanged_scripted`.
-/

namespace PmacPoll

namespace Gateway

variable {σ κ ω : Type}

/-! ### Storing what was answered -/

/-- The counts have no part in what is stored. -/
private theorem Stored.reply_withCounters (s : Stored) (counters : Counters) (command : String)
    (reply : Reply) : ∃ counters', Stored.reply { s with counters } command reply =
      { s.reply command reply with counters := counters' } := by
  unfold Stored.reply
  split
  · exact ⟨_, rfl⟩
  · simp only
    split <;> exact ⟨_, rfl⟩

/-- The counters have no part in what is stored. -/
private theorem Stored.replies_withCounters (s : Stored) (counters : Counters)
    (replies : List (String × Reply)) : ∃ counters', Stored.replies { s with counters } replies =
      { s.replies replies with counters := counters' } := by
  induction replies generalizing s counters with
  | nil => exact ⟨counters, rfl⟩
  | cons r more ih =>
    obtain ⟨_, hreply⟩ := s.reply_withCounters counters r.1 r.2
    obtain ⟨counters', hmore⟩ := ih (s.reply r.1 r.2) _
    refine ⟨counters', ?_⟩
    change Stored.replies (Stored.reply { s with counters } r.1 r.2) more = _
    rw [hreply]
    exact hmore

variable [Transport σ] [Listener κ ω]

/-- A refresh whose commands are all answered stores the replies and fails with the first error
    among them, if there is one. -/
private theorem refresh_of_exchanged {tier : Tier} {g : Gateway σ κ ω}
    (hconnected : g.isConnected = true)
    {replies : List (String × Reply)} (hcommands : replies.map Prod.fst = (g.table tier).commands)
    {c : Channel σ} (h : Channel.Exchanged g.channel replies c) :
    ∃ g', g'.channel = c ∧ g'.table tier = (g.stored tier replies).table ∧
      refresh tier g = raise (g.stored tier replies).error g' := by
  obtain ⟨g₂, hall, hchannel⟩ := transactAll_of_exchanged hconnected h
  have hdata := transactAll_sameData (replies.map Prod.fst) g
  rw [hall] at hdata
  have htable : g₂.table tier = g.table tier := hdata.table_eq tier
  rw [refresh_eq]
  -- a tier without commands has nothing to ask for, and no reply to store
  split
  · next hnone =>
    rw [hnone, List.map_eq_nil_iff] at hcommands
    subst hcommands
    cases h
    exact ⟨g.timed (Transport.now g.channel.link), rfl, rfl, rfl⟩
  · -- the exchanges have counted, and the table is the one from before them
    obtain ⟨counters', hstored⟩ := Stored.replies_withCounters
      ⟨g.table tier, g.counters, none⟩ g₂.counters replies
    have hsame : g₂.stored tier replies = { g.stored tier replies with counters := counters' } := by
      rw [Gateway.stored, htable]
      exact hstored
    refine ⟨g₂.completed tier (Transport.now g.channel.link) replies, hchannel, ?_, ?_⟩
    · rw [table_completed, hsame]
    · rw [← hcommands, hall]
      simp only [complete_eq, hsame]
      cases (g.stored tier replies).error <;> rfl

/-- The same of a refresh that is not suppressed and does not wait for a lock. -/
theorem updateFrom_of_exchanged (taken : Nat) (tier : Tier) {g : Gateway σ κ ω}
    (hconnected : g.isConnected = true) (hcarried : (g.suppresses tier).1 = false)
    (hfree : ∀ held ∈ g.locks.drop taken, held = false)
    {replies : List (String × Reply)} (hcommands : replies.map Prod.fst = (g.table tier).commands)
    {c : Channel σ} (h : Channel.Exchanged g.channel replies c) :
    ∃ g', g'.channel = c ∧ g'.table tier = (g.stored tier replies).table ∧
      updateFrom taken tier g = raise (g.stored tier replies).error g' := by
  obtain ⟨locks, count, hrefresh⟩ := refreshUnlessSuppressed_carried hcarried taken
  obtain ⟨g₁, hchannel, htable, hrun⟩ := refresh_of_exchanged
    (g := { g with locks, suppressCount := count }) hconnected hcommands h
  refine ⟨g₁.unlocked, hchannel, htable, ?_⟩
  have hstored : Gateway.stored { g with locks, suppressCount := count } tier replies =
      g.stored tier replies := rfl
  rw [updateFrom_eq, if_pos (takeLocks_of_free hfree), hrefresh, hrun, hstored]
  cases (g.stored tier replies).error <;> rfl

end Gateway

/-! ### A device with a script -/

/-- A device that can be reached gives the answers of its script, one to each command. -/
theorem Device.exchanged_scripted {c : Channel Device} (hflush : c.config.flushBeforeWrite = true)
    (h : c.link.Open) (commands : List String) {answers : List Bytes}
    (hlength : answers.length = commands.length) (hscript : c.link.scripted = answers.map some)
    (hfits : ∀ answer ∈ answers, answer ≠ [] ∧ answer.length ≤ Frame.maxRead) :
    ∃ c', Channel.Exchanged c
      (commands.zip (answers.map (Reply.scan c.config.maxReplyBytes))) c' := by
  -- each answer leaves the rest of the script for the commands that follow
  induction commands generalizing c answers with
  | nil => exact ⟨c, .nil c⟩
  | cons command more ih =>
    cases answers with
    | nil => exact nomatch hlength
    | cons answer others =>
      obtain ⟨hne, hsize⟩ := hfits answer List.mem_cons_self
      have hanswer : c.link.answer (heard (Utf8.encode command)) =
          (some answer, { c.link with scripted := others.map some }) := by
        rw [Device.answer, hscript]
        rfl
      obtain ⟨c₁, hwrite, hconfig, hopen, halike⟩ := writeRead_device hflush h hanswer hne
        (Nat.le_trans (List.length_take_le' ..) hsize)
      obtain ⟨c', hmore⟩ := ih (hconfig ▸ hflush) hopen (Nat.succ.inj hlength) halike.scripted
        fun other hother => hfits other (List.mem_cons_of_mem answer hother)
      rw [hconfig] at hmore
      exact ⟨c', .cons hwrite hmore⟩

namespace Gateway

/-- A gateway that polls a table on its fast tier, and a device with a script. -/
def scriptedGateway (table : VariableTable) (answers : List Bytes) :
    Gateway Device ChangeLog Change where
  channel := { link := { scripted := answers.map some } }
  tiers := (PerTier.replicate {}).set .fast { table }
  linkState := .connected

/-- Its table is the one it was given. -/
theorem table_scriptedGateway (table : VariableTable) (answers : List Bytes) :
    (scriptedGateway table answers).table .fast = table := rfl

/-- It answers all commands, if the script has an answer to each. -/
theorem exchanged_scriptedGateway (table : VariableTable) {answers : List Bytes}
    (hlength : answers.length = table.commands.length)
    (hfits : ∀ answer ∈ answers, answer ≠ [] ∧ answer.length ≤ Frame.maxRead) :
    ∃ c, Channel.Exchanged (scriptedGateway table answers).channel
      (table.commands.zip (answers.map (Reply.scan 1024))) c :=
  Device.exchanged_scripted rfl ⟨rfl, rfl⟩ table.commands hlength rfl hfits

end Gateway

end PmacPoll
