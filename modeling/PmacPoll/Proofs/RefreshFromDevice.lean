import PmacPoll.Proofs.AnsweredRefreshes
import PmacPoll.Proofs.DeviceReplies

/-!
# A refresh from a simulated controller

End to end: whatever was waiting on the way and wherever the limit cuts a reply, a value after a
refresh is the one before or the one that the device has for that very name, and after a refresh
without an error it is the device's for every name, `updateFrom_device`.
-/

namespace PmacPoll

open Reply

namespace Device

/-- The device answers from its variables, and has received no part of a frame. -/
structure AnswersNames (d : Device) : Prop where
  scripted : d.scripted = []
  responder : d.responder = none
  inbound : d.inbound = []

/-- The bytes that a device sends for a command at once. -/
def sentAtOnce (d : Device) (command : String) : Bytes :=
  let reply := answerNames d.values (Text.words command)
  reply.take (d.immediateLimit.getD reply.length)

/-- Devices that are alike send the same at once. -/
theorem Alike.sentAtOnce_eq {d d' : Device} (h : Alike d d') (command : String) :
    d'.sentAtOnce command = d.sentAtOnce command := by
  rw [sentAtOnce, sentAtOnce, h.values, h.immediateLimit]

/-- What the device hears of a command that fits in one frame is the command. -/
theorem heard_encode {command : String} (h : (Utf8.encode command).length ≤ Frame.maxPayload) :
    heard (Utf8.encode command) = command := by
  unfold heard
  -- a single control character travels in another way, and is heard as itself too
  split
  · next character hcharacter =>
    obtain ⟨hone, hmem⟩ := Frame.eq_of_controlCharacter hcharacter
    have hall : Frame.controlCharacters.all (·.toNat ≤ 0x7F) = true := by decide
    have hascii : character.toNat ≤ 0x7F := of_decide_eq_true (List.all_eq_true.mp hall _ hmem)
    have hdecode := Utf8.decode_encode command
    rw [hone, Utf8.decode, Utf8.decodeFrom_cons, Utf8.step, Utf8.first_ascii hascii] at hdecode
    have hnat : character.toUInt16.toNat % 256 = character.toNat := by
      rw [UInt8.toNat_toUInt16]
      exact Nat.mod_eq_of_lt character.toNat_lt
    rw [hnat, ← hdecode]
    rfl
  · rw [List.take_of_length_le h, Utf8.decode_encode]

/-- Such a device answers with the values of the names in the command. -/
theorem AnswersNames.answer {d : Device} (h : d.AnswersNames) (text : String) :
    d.answer text = (some (answerNames d.values (Text.words text)), d) := by
  simp only [Device.answer, h.scripted, h.responder]

/-- A device that is like one that answers does so as well, with nothing half received. -/
theorem AnswersNames.alike {d d' : Device} (h : d.AnswersNames) (halike : Alike d d')
    (hinbound : d'.inbound = []) : d'.AnswersNames :=
  ⟨halike.scripted.trans h.scripted, halike.responder.trans h.responder, hinbound⟩

/-- A command for some names gets its reply, unless the device cannot be reached. -/
private theorem writeRead_names {c : Channel Device} (hflush : c.config.flushBeforeWrite = true)
    (h : c.link.AnswersNames) {command : String}
    (hlength : (Utf8.encode command).length ≤ Frame.maxPayload)
    (hsize : (c.link.sentAtOnce command).length ≤ Frame.maxRead) :
    (∃ x c', Channel.writeRead (Utf8.encode command) c = .ok x c' ∧
      x.reply = scan c.config.maxReplyBytes (answerNames c.link.values (Text.words command)) ∧
      c'.config = c.config ∧ c'.link.AnswersNames ∧ Alike c.link c'.link) ∨
    (∃ cause c', Channel.writeRead (Utf8.encode command) c = .error (.failed cause) c' ∧
      c'.link = c.link) := by
  cases hconnected : c.link.connected with
  | true =>
    left
    -- what the device hears is the command, so what it answers are the values of these names
    have hanswer := h.answer command
    rw [← heard_encode hlength] at hanswer
    obtain ⟨c', hwrite, hconfig, hopen, halike⟩ :=
      writeRead_device hflush ⟨hconnected, h.inbound⟩ hanswer (answerNames_ne_nil _ _)
        (by rw [heard_encode hlength]; exact hsize)
    rw [heard_encode hlength] at hwrite
    exact ⟨_, c', hwrite, rfl, hconfig, h.alike halike hopen.inbound, halike⟩
  | false => exact Or.inr ⟨_, _, writeRead_disconnected hflush hconnected _, rfl⟩

end Device

namespace Gateway

open Device

variable {κ ω : Type}

/-- A refresh gets the reply to a command, or its exchange fails; either way the device stays as it
    was. -/
private theorem transact_device {g : Gateway Device κ ω}
    (hflush : g.channel.config.flushBeforeWrite = true)
    (h : g.channel.link.AnswersNames) {command : String}
    (hlength : (Utf8.encode command).length ≤ Frame.maxPayload)
    (hsize : (g.channel.link.sentAtOnce command).length ≤ Frame.maxRead) :
    (∃ g₁, transact command g = .ok (scan g.channel.config.maxReplyBytes
        (answerNames g.channel.link.values (Text.words command))) g₁ ∧
      g₁.channel.config = g.channel.config ∧ g₁.channel.link.AnswersNames ∧
      Alike g.channel.link g₁.channel.link) ∨
    (∃ e g₁, transact command g = .error (.failed e) g₁ ∧
      Alike g.channel.link g₁.channel.link) := by
  rw [transact_eq, exchange_eq]
  split
  · -- the exchange gets its reply, or it fails before anything has reached the device
    rcases writeRead_names hflush h hlength hsize with
      ⟨x, c, hwrite, hreply, hconfig, hnames, halike⟩ | ⟨cause, c, hwrite, hlink⟩
    · simp only [hwrite, hreply]
      exact Or.inl ⟨_, rfl, hconfig, hnames, halike⟩
    · simp only [hwrite]
      refine Or.inr ⟨_, _, rfl, ?_⟩
      change Alike g.channel.link c.link
      rw [hlink]
      exact Alike.refl _
  · exact Or.inr ⟨_, g, rfl, Alike.refl _⟩

/-- The replies to some commands. -/
def repliesFor (maxLength : Nat) (values : Std.HashMap String String) (commands : List String) :
    List (String × Reply) :=
  commands.map fun command => (command, scan maxLength (answerNames values (Text.words command)))

/-- The commands of a refresh get their replies, or the connection is lost. -/
private theorem transactAll_device {commands : List String} {g : Gateway Device κ ω}
    (hflush : g.channel.config.flushBeforeWrite = true) (h : g.channel.link.AnswersNames)
    (hlength : ∀ command ∈ commands, (Utf8.encode command).length ≤ Frame.maxPayload)
    (hsize : ∀ command ∈ commands, (g.channel.link.sentAtOnce command).length ≤ Frame.maxRead) :
    (∃ g₁, transactAll commands g = .ok
        (repliesFor g.channel.config.maxReplyBytes g.channel.link.values commands) g₁ ∧
      Alike g.channel.link g₁.channel.link) ∨
    (∃ e g₁, transactAll commands g = .error (.failed e) g₁ ∧
      Alike g.channel.link g₁.channel.link) := by
  -- the device after an exchange answers the remaining commands as the one before would have
  induction commands generalizing g with
  | nil => exact Or.inl ⟨g, rfl, Alike.refl _⟩
  | cons command more ih =>
    rw [transactAll_cons]
    rcases transact_device hflush h (hlength command (List.mem_cons_self ..))
        (hsize command (List.mem_cons_self ..)) with
      ⟨g₁, htransact, hconfig, hnames, halike⟩ | ⟨e, g₁, htransact, halike⟩
    · have hmore := ih (g := g₁) (by rw [hconfig]; exact hflush) hnames
        (fun c hc => hlength c (List.mem_cons_of_mem command hc))
        (fun c hc => by rw [halike.sentAtOnce_eq]; exact hsize c (List.mem_cons_of_mem command hc))
      rw [hconfig, halike.values] at hmore
      rcases hmore with ⟨g₂, hall, halike'⟩ | ⟨e, g₂, hall, halike'⟩
      · refine Or.inl ⟨g₂, ?_, halike.trans halike'⟩
        simp only [htransact, hall]
        rfl
      · refine Or.inr ⟨e, g₂, ?_, halike.trans halike'⟩
        simp only [htransact, hall]
    · refine Or.inr ⟨e, g₁, ?_, halike⟩
      simp only [htransact]

/-! ### End to end -/

/-- A tier is polled from a simulated controller that answers from its variables. What waits at
    either end, the limits, and the values that are held already may be anything. -/
structure PollsDevice (g : Gateway Device κ ω) (tier : Tier) : Prop where
  flushes : g.channel.config.flushBeforeWrite = true
  answers : g.channel.link.AnswersNames
  plain : PlainValues g.channel.link.values
  built : (g.table tier).Built
  words : ∀ name ∈ (g.table tier).names, Text.IsWord name
  /-- Every command fits in one frame. -/
  fits : ∀ command ∈ (g.table tier).commands,
    (Utf8.encode command).length ≤ Frame.maxPayload
  /-- What is sent of a reply at once fits in one read. -/
  atOnce : ∀ command ∈ (g.table tier).commands,
    (g.channel.link.sentAtOnce command).length ≤ Frame.maxRead

/-- A table as a refresh may leave it: the names are the same, and each holds its value from before
    or the one of the device. -/
structure Refreshed (values : Std.HashMap String String) (before after : VariableTable) : Prop where
  names : after.names = before.names
  read : ∀ name, after.read name = before.read name ∨ values[name]? = some (after.read name)

/-- A table that stays as it was is refreshed. -/
theorem Refreshed.refl (values : Std.HashMap String String) (t : VariableTable) :
    Refreshed values t t :=
  ⟨rfl, fun _ => Or.inl rfl⟩

/-- A line of a reply that came for a name is the value of the name. -/
theorem value_of_cameFor {maxLength : Nat} {values : Std.HashMap String String}
    (hplain : PlainValues values) {commands : List String} {name line : String}
    (h : Stored.CameFor (repliesFor maxLength values commands) name line) :
    values[name]? = some line := by
  obtain ⟨r, hr, hmem⟩ := h
  obtain ⟨command, -, rfl⟩ := List.mem_map.mp hr
  exact value_of_mem_zip (lines_of_answer hplain (Text.words command) maxLength) hmem

/-- Every registered name is asked for. -/
theorem PollsDevice.asked {g : Gateway Device κ ω} {tier : Tier} (h : g.PollsDevice tier)
    {name : String} (hname : name ∈ (g.table tier).names) (maxLength : Nat)
    (values : Std.HashMap String String) :
    ∃ r ∈ repliesFor maxLength values (g.table tier).commands, name ∈ Text.words r.1 := by
  rw [← VariableTable.flatten_commands (VariableTable.kept_of_built h.built) h.words] at hname
  obtain ⟨words, hwords, hmem⟩ := List.mem_flatten.mp hname
  obtain ⟨command, hcommand, rfl⟩ := List.mem_map.mp hwords
  exact ⟨_, List.mem_map_of_mem hcommand, hmem⟩

/-- What a refresh of an unsuppressed tier comes to. -/
structure DeviceOutcome (g : Gateway Device κ ω) (tier : Tier)
    (result : EStateM.Result (Stop GatewayError) (Gateway Device κ ω) Unit) : Prop where
  refreshed : Refreshed g.channel.link.values (g.table tier) ((finalState result).table tier)
  /-- The device is as it was. -/
  values : (finalState result).channel.link.values = g.channel.link.values
  /-- Without an error every name is known to the device and holds its value. -/
  current : ∀ g', result = .ok () g' → ∀ name ∈ (g.table tier).names,
    g.channel.link.values[name]? = some ((g'.table tier).read name)

variable [Listener κ ω]

omit [Listener κ ω] in
/-- The replies of a refresh, stored. -/
private theorem refreshed_stored {g : Gateway Device κ ω} {tier : Tier} (h : g.PollsDevice tier)
    {s : Stored} (htable : s.table = g.table tier) (maxLength : Nat) :
    Refreshed g.channel.link.values (g.table tier)
        (s.replies (repliesFor maxLength g.channel.link.values (g.table tier).commands)).table ∧
      ((s.replies (repliesFor maxLength g.channel.link.values
          (g.table tier).commands)).error = none →
        ∀ name ∈ (g.table tier).names, g.channel.link.values[name]? =
          some ((s.replies (repliesFor maxLength g.channel.link.values
            (g.table tier).commands)).table.read name)) := by
  have hkept : s.table.Kept := htable ▸ VariableTable.kept_of_built h.built
  rw [← htable]
  refine ⟨⟨(Stored.kept_replies hkept _).2, fun name => ?_⟩, fun hok name hname => ?_⟩
  · rcases Stored.read_replies hkept _ name with hbefore | hcame
    · exact Or.inl hbefore
    · exact Or.inr (value_of_cameFor h.plain hcame)
  · refine value_of_cameFor h.plain (Stored.read_replies_of_ok hkept hok hname ?_)
    rw [htable] at hname ⊢
    exact h.asked hname maxLength _

/-- A refresh that is carried out comes to an end, with the outcome as said. -/
private theorem refresh_device {g : Gateway Device κ ω} {tier : Tier} (h : g.PollsDevice tier) :
    DeviceOutcome g tier (refresh tier g) ∧ ∀ g', refresh tier g ≠ .error .unfinished g' := by
  rw [refresh_eq]
  split
  · next hnone =>
    refine ⟨⟨Refreshed.refl _ _, rfl, fun _ _ name hname => ?_⟩, fun _ => nofun⟩
    obtain ⟨r, hr, -⟩ := h.asked hname 0 {}
    rw [hnone] at hr
    exact nomatch hr
  · have hdata := transactAll_sameData (g.table tier).commands g
    rcases transactAll_device h.flushes h.answers h.fits h.atOnce with
      ⟨g₂, hall, halike⟩ | ⟨e, g₂, hall, halike⟩
    · rw [hall] at hdata ⊢
      have htable : g₂.table tier = g.table tier := hdata.table_eq tier
      obtain ⟨hrefreshed, hcurrent⟩ := refreshed_stored h (s := ⟨g₂.table tier, g₂.counters, none⟩)
        htable g.channel.config.maxReplyBytes
      have hcompleted : ∀ replies,
          (g₂.completed tier (Transport.now g.channel.link) replies).table tier =
            (Stored.replies ⟨g₂.table tier, g₂.counters, none⟩ replies).table :=
        g₂.table_completed tier _
      rw [← hcompleted] at hrefreshed hcurrent
      simp only [complete_eq]
      cases herror : (g₂.stored tier (repliesFor g.channel.config.maxReplyBytes
          g.channel.link.values (g.table tier).commands)).error with
      | some cause =>
        exact ⟨⟨hrefreshed, halike.values, fun _ hok => nomatch hok⟩, fun _ => nofun⟩
      | none =>
        refine ⟨⟨hrefreshed, halike.values, fun g' hok => ?_⟩, fun _ => nofun⟩
        obtain ⟨-, rfl⟩ := EStateM.Result.ok.inj hok
        exact hcurrent herror
    · -- Some command failed before any reply was stored.
      rw [hall] at hdata ⊢
      refine ⟨⟨?_, halike.values, fun _ hok => nomatch hok⟩, fun _ => nofun⟩
      have htable : (g₂.timed (Transport.now g.channel.link)).table tier = g.table tier :=
        hdata.table_eq tier
      exact htable ▸ Refreshed.refl _ _

/-- **No partial value and no value of another name.** For every limit and every way in which the
    device divides its replies, after a refresh each name holds its value from before or the one
    that the device has for it; if there was no error then every name is known to the device and
    holds its value. The refresh comes to an end unless somebody holds an outside lock. -/
theorem updateFrom_device {g : Gateway Device κ ω} {tier : Tier} (h : g.PollsDevice tier)
    (hunsuppressed : (g.suppresses tier).1 = false) (taken : Nat) :
    DeviceOutcome g tier (updateFrom taken tier g) ∧
      ((∀ held ∈ g.locks.drop taken, held = false) →
        ∀ g', updateFrom taken tier g ≠ .error .unfinished g') := by
  obtain ⟨locks, count, hrefresh⟩ := refreshUnlessSuppressed_carried hunsuppressed taken
  have hpolls : PollsDevice { g with locks, suppressCount := count } tier :=
    ⟨h.flushes, h.answers, h.plain, h.built, h.words, h.fits, h.atOnce⟩
  obtain ⟨houtcome, hends⟩ := refresh_device hpolls
  rw [updateFrom_eq, hrefresh]
  split
  · cases hrun : refresh tier { g with locks, suppressCount := count } with
    | ok u g' =>
      rw [hrun] at houtcome
      refine ⟨⟨houtcome.refreshed, houtcome.values, fun g₁ hok => ?_⟩, fun _ _ => nofun⟩
      obtain ⟨-, rfl⟩ := EStateM.Result.ok.inj hok
      exact houtcome.current g' rfl
    | error stop g' =>
      cases stop with
      | failed cause =>
        rw [hrun] at houtcome
        exact ⟨⟨houtcome.refreshed, houtcome.values, fun _ hok => nomatch hok⟩, fun _ _ => nofun⟩
      | unfinished => exact absurd hrun (hends g')
  · -- The update waits for an outside lock, and has done nothing yet.
    next hheld =>
    refine ⟨⟨Refreshed.refl _ _, rfl, fun _ hok => nomatch hok⟩, fun hfree => ?_⟩
    exact absurd (takeLocks_of_free hfree) hheld

/-- A gateway with remains of an earlier reply at both ends, a device that holds most of a reply
    back, and a limit that cuts a value. -/
def unsettledGateway : Gateway Device ChangeLog Change where
  channel :=
    { link :=
        { outbox := [0x31]
          held := [0x0D, 0x06]
          immediateLimit := some 2
          values := ({} : Std.HashMap String String).insert "P1" "1.25" }
      config := { maxReplyBytes := 4 }
      inbox := { tail := some true } }
  tiers := (PerTier.replicate {}).set .fast { table := VariableTable.empty.add "P1" }
  linkState := .connected

/-- What the device of `unsettledGateway` answers. -/
def unsettledReply : Bytes :=
  Utf8.encode "1.25" ++ [Control.carriageReturn, Control.ack]

/-- The reply `1.25` is cut down to `1.2`, but the part of a value is not stored: the refresh fails,
    as there is no whole line, and the name keeps its value from before. -/
theorem updateFrom_device_unsettled :
    DeviceOutcome unsettledGateway .fast (updateFrom 0 .fast unsettledGateway) ∧
      ∃ g', updateFrom 0 .fast unsettledGateway =
          .error (.failed (.mismatch { expected := 1, received := 0, updated := 0 })) g' ∧
        g'.channel.link.values["P1"]? = some "1.25" ∧ (g'.table .fast).read "P1" = "" := by
  have hnames : (unsettledGateway.table .fast).names = ["P1"] := (VariableTable.add_empty "P1").1
  have hcommands : (unsettledGateway.table .fast).commands = ["P1"] :=
    (VariableTable.add_empty "P1").2
  have hvalues : ∀ name : String, unsettledGateway.channel.link.values[name]? =
      if "P1" == name then some "1.25" else none := by
    intro name
    show (({} : Std.HashMap String String).insert "P1" "1.25")[name]? = _
    rw [Std.HashMap.getElem?_insert, Std.HashMap.getElem?_empty]
  have hplain : PlainValues unsettledGateway.channel.link.values := by
    intro name value h
    rw [hvalues] at h
    split at h
    · obtain rfl := Option.some.inj h
      have hall : (Utf8.encode "1.25").all (fun byte => decide (Control.IsPlain byte)) = true := by
        decide
      intro byte hbyte
      exact of_decide_eq_true (List.all_eq_true.mp hall byte hbyte)
    · exact absurd h (Option.some_ne_none value).symm
  have hpolls : unsettledGateway.PollsDevice .fast := by
    refine ⟨rfl, ⟨rfl, rfl, rfl⟩, hplain, .add "P1" .empty, ?_, ?_, ?_⟩
    · intro name hname
      rw [hnames] at hname
      obtain rfl := List.mem_singleton.mp hname
      have hall : "P1".toList.all (fun c => decide (Text.isBlank c = false)) = true := by decide
      exact ⟨by decide, fun c hc => of_decide_eq_true (List.all_eq_true.mp hall c hc)⟩
    · intro command hcommand
      rw [hcommands] at hcommand
      obtain rfl := List.mem_singleton.mp hcommand
      decide
    · intro command _
      exact Nat.le_trans (List.length_take_le ..) (show 2 ≤ Frame.maxRead by decide)
  have houtcome : DeviceOutcome unsettledGateway .fast (updateFrom 0 .fast unsettledGateway) :=
    (updateFrom_device hpolls rfl 0).1
  -- The device can be reached, so the only command is answered.
  have hwords : Text.words "P1" = ["P1"] := by decide
  have hanswer : unsettledGateway.channel.link.answer (heard (Utf8.encode "P1")) =
      (some unsettledReply, unsettledGateway.channel.link) := by
    rw [heard_encode (by decide), hpolls.answers.answer, hwords, answerNames, hvalues]
    rfl
  obtain ⟨c, hwrite, -⟩ := Device.writeRead_device hpolls.flushes ⟨rfl, rfl⟩ hanswer (by decide)
    (Nat.le_trans (List.length_take_le ..) (show 2 ≤ Frame.maxRead by decide))
  have hexchanged : Channel.Exchanged unsettledGateway.channel [("P1", scan 4 unsettledReply)] c :=
    .cons hwrite (.nil c)
  have hasked : [("P1", scan 4 unsettledReply)].map Prod.fst =
      (unsettledGateway.table .fast).commands := hcommands.symm
  obtain ⟨g', -, htable, hrun⟩ := updateFrom_of_exchanged 0 .fast (g := unsettledGateway) rfl rfl
    (fun _ h => absurd h List.not_mem_nil) hasked hexchanged
  refine ⟨houtcome, g', ?_, ?_, ?_⟩
  · -- No line of the reply is whole.
    exact hrun
  · have hsame := houtcome.values
    rw [hrun] at hsame
    exact (congrArg (·["P1"]?) hsame).trans (hvalues "P1")
  · rw [htable]
    change (VariableTable.empty.add "P1").read "P1" = ""
    rw [VariableTable.read_eq (VariableTable.kept_add VariableTable.kept_empty "P1"),
      VariableTable.entries_add VariableTable.kept_empty List.not_mem_nil]
    rfl

end Gateway

end PmacPoll
