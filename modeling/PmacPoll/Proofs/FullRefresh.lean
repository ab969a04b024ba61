import Mathlib.Data.List.Nodup
import Mathlib.Data.List.Pairwise
import PmacPoll.Proofs.DeviceRecord
import PmacPoll.Proofs.RefreshFromDevice
import PmacPoll.Proofs.WholeReplies

/-!
# A full refresh

A gateway refreshes a tier from a device that can be reached and whose replies all fit. Then the
device is asked for the commands of the tier, each once and in order, `commands_exchanged`. In each
command the names up to the first that the device does not know get its values, and all others keep
theirs; the refresh fails just if there is such a name, and the connection stands.

The main result is `updateFrom_full`.
-/

namespace PmacPoll

open Reply Device

/-! ### Names in chunks -/

/-- In a list without duplicates that is cut into chunks, what comes early in one chunk does not
    come late in one. -/
private theorem not_mem_takeWhile_of_mem_dropWhile {α : Type} {p : α → Bool}
    {chunks : List (List α)}
    (hnodup : chunks.flatten.Nodup) {chunk other : List α} (hchunk : chunk ∈ chunks)
    (hother : other ∈ chunks) {a : α} (ha : a ∈ chunk.dropWhile p) : a ∉ other.takeWhile p := by
  intro hearly
  obtain ⟨hchunks, hdisjoint⟩ := List.nodup_flatten.mp hnodup
  have hin : a ∈ chunk := (List.dropWhile_suffix p).subset ha
  have hin' : a ∈ other := (List.takeWhile_prefix p).subset hearly
  -- within one chunk the two parts have nothing in common, and neither have two chunks
  by_cases hsame : chunk = other
  · subst hsame
    have hparts := hchunks chunk hchunk
    rw [← List.takeWhile_append_dropWhile (p := p) (l := chunk)] at hparts
    exact List.disjoint_of_nodup_append hparts hearly ha
  · have hsymm : Std.Symm (@List.Disjoint α) := ⟨fun _ _ h _ hleft hright => h hright hleft⟩
    exact hdisjoint.forall hchunk hother hsame hin hin'

namespace Gateway

/-! ### Storing replies that fit -/

namespace Stored

variable {values : Std.HashMap String String} {maxLength : Nat}

/-- What is wrong with a reply that fits. -/
def reported (known : Bool) : Option GatewayError :=
  if known then none else some (.device "ERR003")

/-- A reply that fits reports an error just if a name of its command is unknown, and the first error
    of a refresh stays. -/
private theorem error_reply_of_fitting (s : Stored) (hplain : PlainValues values) {command : String}
    (hfits : (answerNames values (Text.words command)).length ≤ maxLength) :
    (s.reply command (scan maxLength (answerNames values (Text.words command)))).error =
      (s.error <|> reported ((Text.words command).all values.contains)) := by
  -- the device knows all names and gives a line for each, or it ends with its error
  cases hknown : (Text.words command).all values.contains with
  | true =>
    have hnone := isDeviceError_of_fitting hplain hfits hknown
    have hlines := lines_of_fitting hplain hfits
    rw [storedText, hnone, if_neg Bool.false_ne_true] at hlines
    have hcount : (Text.words command).length = (Text.endedLines
        (scan maxLength (answerNames values (Text.words command))).text).length := by
      rw [hlines, length_givenValues hknown]
    unfold Stored.reply VariableTable.updateChunk VariableTable.assign
    rw [hnone, if_neg Bool.false_ne_true]
    simp only [if_pos hcount, reported, if_true]
    cases s.error <;> rfl
  | false =>
    obtain ⟨hreported, hcode⟩ := errorCode_of_fitting hplain hfits hknown
    unfold Stored.reply
    rw [if_pos hreported, hcode]
    rfl

/-- The first command with a name that is not known is what a refresh fails for. -/
private theorem error_replies_of_fitting (s : Stored) (hplain : PlainValues values)
    {commands : List String}
    (hfits : ∀ command ∈ commands, (answerNames values (Text.words command)).length ≤ maxLength) :
    (s.replies (repliesFor maxLength values commands)).error =
      (s.error <|> reported (commands.all fun command =>
        (Text.words command).all values.contains)) := by
  induction commands generalizing s with
  | nil =>
    show s.error = (s.error <|> none)
    cases s.error <;> rfl
  | cons command more ih =>
    have hmore := ih (s.reply command (scan maxLength (answerNames values (Text.words command))))
      fun c hc => hfits c (List.mem_cons_of_mem command hc)
    rw [error_reply_of_fitting s hplain (hfits command List.mem_cons_self)] at hmore
    rw [List.all_cons]
    refine hmore.trans ?_
    -- an error that is there already stays
    cases s.error <;> cases (Text.words command).all values.contains <;> rfl

end Stored

/-! ### A device that can be reached -/

variable {κ ω : Type}

/-- A tier is polled from a device that can be reached, and every reply fits. -/
structure PollsFully (g : Gateway Device κ ω) (tier : Tier) : Prop extends g.PollsDevice tier where
  connected : g.linkState = .connected
  reached : g.channel.link.connected = true
  within : ∀ command ∈ (g.table tier).commands,
    (answerNames g.channel.link.values (Text.words command)).length ≤
      g.channel.config.maxReplyBytes

/-- A device that is reached answers a command, and is reached after it. -/
private theorem transact_reached {g : Gateway Device κ ω}
    (hflush : g.channel.config.flushBeforeWrite = true) (h : g.channel.link.AnswersNames)
    (hconnected : g.linkState = .connected) (hreached : g.channel.link.connected = true)
    {command : String} (hlength : (Utf8.encode command).length ≤ Frame.maxPayload)
    (hsize : (g.channel.link.sentAtOnce command).length ≤ Frame.maxRead) :
    ∃ g₁, transact command g = .ok (scan g.channel.config.maxReplyBytes
        (answerNames g.channel.link.values (Text.words command))) g₁ ∧
      g₁.channel.config = g.channel.config ∧ g₁.channel.link.AnswersNames ∧
      g₁.channel.link.connected = true ∧ Alike g.channel.link g₁.channel.link := by
  have hanswer := h.answer command
  rw [← heard_encode hlength] at hanswer
  obtain ⟨c, hwrite, hconfig, hopen, halike⟩ :=
    writeRead_device hflush ⟨hreached, h.inbound⟩ hanswer (answerNames_ne_nil _ _)
      (by rw [heard_encode hlength]; exact hsize)
  rw [heard_encode hlength] at hwrite
  exact ⟨_, transact_of_answered ((isConnected_iff g).mpr hconnected) hwrite, hconfig,
    h.alike halike hopen.inbound, hopen.connected, halike⟩

/-- All commands get their replies. -/
private theorem transactAll_reached {commands : List String} {g : Gateway Device κ ω}
    (hflush : g.channel.config.flushBeforeWrite = true) (h : g.channel.link.AnswersNames)
    (hconnected : g.linkState = .connected) (hreached : g.channel.link.connected = true)
    (hlength : ∀ command ∈ commands, (Utf8.encode command).length ≤ Frame.maxPayload)
    (hsize : ∀ command ∈ commands, (g.channel.link.sentAtOnce command).length ≤ Frame.maxRead) :
    ∃ g₁, transactAll commands g = .ok
        (repliesFor g.channel.config.maxReplyBytes g.channel.link.values commands) g₁ ∧
      Alike g.channel.link g₁.channel.link := by
  -- each exchange leaves a device from which the rest can be asked
  induction commands generalizing g with
  | nil => exact ⟨g, rfl, .refl _⟩
  | cons command more ih =>
    obtain ⟨g₁, htransact, hconfig, hnames, hreached₁, halike⟩ :=
      transact_reached hflush h hconnected hreached (hlength command List.mem_cons_self)
        (hsize command List.mem_cons_self)
    have hstate : g₁.linkState = .connected := (transact_ok htransact).2.1.trans hconnected
    obtain ⟨g₂, hall, halike'⟩ := ih (g := g₁) (by rw [hconfig]; exact hflush) hnames hstate
      hreached₁ (fun c hc => hlength c (List.mem_cons_of_mem command hc))
      (fun c hc => by rw [halike.sentAtOnce_eq]; exact hsize c (List.mem_cons_of_mem command hc))
    rw [hconfig, halike.values] at hall
    refine ⟨g₂, ?_, halike.trans halike'⟩
    rw [transactAll_cons, htransact]
    simp only [hall]
    rfl

/-- The record of a device grows by the commands of an exchange. -/
theorem commands_exchanged {c c' : Channel Device} {replies : List (String × Reply)}
    (h : Channel.Exchanged c replies c') (hinbound : c.link.inbound = []) :
    c'.link.commands =
      c.link.commands ++ replies.map fun r => entry (Utf8.encode r.1) := by
  induction h with
  | nil c => rw [List.map_nil, List.append_nil]
  | cons hwrite _ ih =>
    obtain ⟨hinbound₁, hcommands⟩ := commands_writeRead hinbound hwrite
    rw [ih hinbound₁, hcommands, List.append_assoc]
    rfl

/-! ### What is stored -/

variable {g : Gateway Device κ ω} {tier : Tier}

/-- Once all replies are there, the device was asked for the commands of the tier. -/
private theorem PollsFully.commands_asked (h : g.PollsFully tier) {g₁ : Gateway Device κ ω}
    {replies : List (String × Reply)}
    (hall : transactAll (g.table tier).commands g = .ok replies g₁) :
    g₁.channel.link.commands.map (·.text) =
      g.channel.link.commands.map (·.text) ++ (g.table tier).commands := by
  obtain ⟨hcommands, hexchanged, -⟩ := transactAll_ok hall
  have hheard : (g.table tier).commands.map (fun command => (entry (Utf8.encode command)).text) =
      (g.table tier).commands.map id :=
    List.map_congr_left fun command hcommand => heard_encode (h.fits command hcommand)
  have htexts : (replies.map fun r => entry (Utf8.encode r.1)).map (·.text) =
      (g.table tier).commands := by
    rw [List.map_map, ← List.map_id (g.table tier).commands, ← hheard, ← hcommands, List.map_map]
    rfl
  rw [commands_exchanged hexchanged h.answers.inbound, List.map_append, htexts]

/-- The tables of such a gateway keep their names. -/
theorem PollsDevice.kept (h : g.PollsDevice tier) : (g.table tier).Kept :=
  VariableTable.kept_of_built h.built

/-- The names of a chunk are read back from its command. -/
theorem PollsDevice.words_unwords (h : g.PollsDevice tier) {chunk : List String}
    (hchunk : chunk ∈ chunksOf VariableTable.maxNames (g.table tier).names) :
    Text.words (Text.unwords chunk) = chunk :=
  VariableTable.words_unwords h.words hchunk

/-- The reply for a chunk, and the lines that it brings. -/
private theorem PollsFully.lines_of_chunk (h : g.PollsFully tier) {chunk : List String}
    (hchunk : chunk ∈ chunksOf VariableTable.maxNames (g.table tier).names) :
    ∃ reply, (Text.unwords chunk, reply) ∈ repliesFor g.channel.config.maxReplyBytes
        g.channel.link.values (g.table tier).commands ∧
      Text.endedLines reply.storedText = givenValues g.channel.link.values chunk := by
  have hcommand : Text.unwords chunk ∈ (g.table tier).commands := by
    rw [h.kept.commands]
    exact List.mem_map_of_mem hchunk
  have hlines := lines_of_fitting h.plain (h.within _ hcommand)
  rw [h.words_unwords hchunk] at hlines
  refine ⟨_, List.mem_map_of_mem hcommand, ?_⟩
  rw [h.words_unwords hchunk]
  exact hlines

/-- Every reply is one for a chunk. -/
private theorem PollsFully.chunk_of_reply (h : g.PollsFully tier) {r : String × Reply}
    (hr : r ∈ repliesFor g.channel.config.maxReplyBytes g.channel.link.values
      (g.table tier).commands) :
    ∃ chunk ∈ chunksOf VariableTable.maxNames (g.table tier).names, Text.words r.1 = chunk ∧
      Text.endedLines r.2.storedText = givenValues g.channel.link.values chunk := by
  obtain ⟨command, hcommand, rfl⟩ := List.mem_map.mp hr
  have hlines := lines_of_fitting h.plain (h.within _ hcommand)
  rw [h.kept.commands] at hcommand
  obtain ⟨chunk, hchunk, rfl⟩ := List.mem_map.mp hcommand
  have hwords := h.words_unwords hchunk
  exact ⟨chunk, hchunk, hwords, hlines.trans (by rw [hwords])⟩

/-- A line that came for a name is the value that the device gave for it in its chunk. -/
theorem PollsFully.cameFor_iff (h : g.PollsFully tier) {name line : String} :
    Stored.CameFor (repliesFor g.channel.config.maxReplyBytes g.channel.link.values
        (g.table tier).commands) name line ↔
      ∃ chunk ∈ chunksOf VariableTable.maxNames (g.table tier).names,
        (name, line) ∈ chunk.zip (givenValues g.channel.link.values chunk) := by
  constructor
  · -- a reply is that to some chunk, and every chunk has one
    intro ⟨r, hr, hline⟩
    obtain ⟨chunk, hchunk, hwords, hlines⟩ := h.chunk_of_reply hr
    rw [hwords, hlines] at hline
    exact ⟨chunk, hchunk, hline⟩
  · intro ⟨chunk, hchunk, hline⟩
    obtain ⟨reply, hreply, hlines⟩ := h.lines_of_chunk hchunk
    refine ⟨_, hreply, ?_⟩
    rw [h.words_unwords hchunk, hlines]
    exact hline

/-- All names are known just if those of every command are. -/
private theorem PollsDevice.all_known (h : g.PollsDevice tier) (p : String → Bool) :
    ((g.table tier).commands.all fun command => (Text.words command).all p) =
      (g.table tier).names.all p := by
  rw [← VariableTable.flatten_commands h.kept h.words, List.all_flatten, List.all_map]
  rfl

/-- What the replies to all commands of a tier leave in its table. -/
structure StoredFully (g : Gateway Device κ ω) (before after : VariableTable) : Prop where
  names : after.names = before.names
  /-- In each chunk the names up to the first unknown one hold the values of the device. -/
  given : ∀ chunk ∈ chunksOf VariableTable.maxNames before.names,
    ∀ name ∈ chunk.takeWhile g.channel.link.values.contains,
      g.channel.link.values[name]? = some (after.read name)
  /-- That one and all later names of the chunk hold what they held. -/
  missed : ∀ chunk ∈ chunksOf VariableTable.maxNames before.names,
    ∀ name ∈ chunk.dropWhile g.channel.link.values.contains,
      after.read name = before.read name

/-- The replies of a device that can be reached are stored as said. -/
private theorem storedFully (h : g.PollsFully tier) {s : Stored} (htable : s.table = g.table tier) :
    StoredFully g (g.table tier) (s.replies (repliesFor g.channel.config.maxReplyBytes
      g.channel.link.values (g.table tier).commands)).table := by
  have hkept : s.table.Kept := htable ▸ h.kept
  have hflatten := flatten_chunksOf VariableTable.maxNames (g.table tier).names
  refine ⟨htable ▸ (Stored.kept_replies hkept _).2, ?_, ?_⟩
  · intro chunk hchunk name hname
    -- the device gave a line for the name, so the name holds one that it gave
    rw [← map_fst_zip_givenValues] at hname
    obtain ⟨⟨name, line⟩, hline, rfl⟩ := List.mem_map.mp hname
    have hregistered : name ∈ s.table.names := by
      rw [htable, ← hflatten]
      exact List.mem_flatten_of_mem hchunk (List.of_mem_zip hline).1
    apply value_of_cameFor h.plain
    apply Stored.read_replies_of_mem hkept hregistered
    exact ⟨line, h.cameFor_iff.mpr ⟨chunk, hchunk, hline⟩⟩
  · intro chunk hchunk name hname
    rcases Stored.read_replies hkept _ name with hsame | hcame
    · rw [hsame, htable]
    · -- no other chunk has the name, and in this one it comes too late
      obtain ⟨other, hother, hline⟩ := h.cameFor_iff.mp hcame
      have hearly : name ∈ other.takeWhile g.channel.link.values.contains := by
        rw [← map_fst_zip_givenValues]
        exact List.mem_map_of_mem hline
      have hnodup : (chunksOf VariableTable.maxNames (g.table tier).names).flatten.Nodup := by
        rw [hflatten]
        exact OrderedMap.nodup_keys h.kept.coherent
      exact absurd hearly (not_mem_takeWhile_of_mem_dropWhile hnodup hchunk hother hname)

/-! ### End to end -/

/-- What a full refresh leaves behind. -/
structure FullRefresh (tier : Tier) (g g' : Gateway Device κ ω) : Prop
    extends StoredFully g (g.table tier) (g'.table tier) where
  /-- The device was asked for the commands of the tier, each once and in order. -/
  asked : g'.channel.link.commands.map (·.text) =
    g.channel.link.commands.map (·.text) ++ (g.table tier).commands
  /-- The device has the values that it had. -/
  values : g'.channel.link.values = g.channel.link.values
  linkState : g'.linkState = .connected
  messages : g'.statistics.messages =
    g.statistics.messages + UInt64.ofNat (g.table tier).commands.length

variable [Listener κ ω]

/-- A full refresh ends without an error if all names are known, else with that of the device. -/
private theorem refresh_full (h : g.PollsFully tier) :
    ∃ g', FullRefresh tier g g' ∧
      refresh tier g =
        if (g.table tier).names.all g.channel.link.values.contains then .ok () g'
        else .error (.failed (.device "ERR003")) g' := by
  rw [refresh_eq]
  split
  · next hnone =>
    -- there is nothing to ask for, and nothing changes but the time
    have hstored := storedFully h (s := ⟨g.table tier, g.counters, none⟩) rfl
    have hknown := h.all_known g.channel.link.values.contains
    rw [hnone] at hstored hknown
    rw [← hknown]
    refine ⟨g.timed (Transport.now g.channel.link), ⟨hstored, ?_, rfl, h.connected, ?_⟩, rfl⟩
    · rw [hnone, List.append_nil]
      rfl
    · rw [hnone]
      exact (UInt64.add_zero _).symm
  · -- every command gets its reply, and the replies are then stored one after the other
    obtain ⟨g₂, hall, halike⟩ := transactAll_reached h.flushes h.answers h.connected h.reached
      h.fits h.atOnce
    obtain ⟨-, -, hstate, hmessages⟩ := transactAll_ok hall
    have hasked := h.commands_asked hall
    have hdata := transactAll_sameData (g.table tier).commands g
    rw [hall] at hdata
    have htable : g₂.table tier = g.table tier := hdata.table_eq tier
    generalize hreplies : repliesFor g.channel.config.maxReplyBytes g.channel.link.values
      (g.table tier).commands = replies at hall
    have hstored := storedFully h (s := ⟨g₂.table tier, g₂.counters, none⟩) htable
    have herror := Stored.error_replies_of_fitting ⟨g₂.table tier, g₂.counters, none⟩ h.plain
      h.within
    rw [h.all_known] at herror
    rw [hreplies] at hstored herror
    have hcompleted : (g₂.completed tier (Transport.now g.channel.link) replies).table tier =
        (Stored.replies ⟨g₂.table tier, g₂.counters, none⟩ replies).table :=
      g₂.table_completed tier _ replies
    rw [← hcompleted] at hstored
    refine ⟨g₂.completed tier (Transport.now g.channel.link) replies,
      ⟨hstored, hasked, halike.values, hstate.trans h.connected, hmessages⟩, ?_⟩
    have hwrong : (g₂.stored tier replies).error =
        Stored.reported ((g.table tier).names.all g.channel.link.values.contains) := herror
    simp only [hall, complete_eq, hwrong, Stored.reported]
    cases (g.table tier).names.all g.channel.link.values.contains <;> rfl

/-- **The exact effect of a full refresh.** A tier is refreshed from a device that can be reached,
    and every reply fits. The device is asked for the commands of the tier, each once and in order;
    in each chunk the names up to the first that it does not know get its values, and that one and
    all later ones keep theirs; the refresh fails with the error of the device just if there is such
    a name; the connection stands, and as many messages are counted as there are commands. While
    somebody holds an outside lock the refresh waits, and has done nothing but take the locks before
    that one. -/
theorem updateFrom_full (h : g.PollsFully tier) (hunsuppressed : (g.suppresses tier).1 = false)
    (taken : Nat) :
    ((∀ held ∈ g.locks.drop taken, held = false) →
      ∃ g', FullRefresh tier g g' ∧
        updateFrom taken tier g =
          if (g.table tier).names.all g.channel.link.values.contains then .ok () g'
          else .error (.failed (.device "ERR003")) g') ∧
    ((∃ held ∈ g.locks.drop taken, held = true) →
      updateFrom taken tier g = .error .unfinished (g.locked taken)) := by
  obtain ⟨locks, count, hrefresh⟩ := refreshUnlessSuppressed_carried hunsuppressed taken
  have hfully : PollsFully { g with locks, suppressCount := count } tier :=
    ⟨⟨h.flushes, h.answers, h.plain, h.built, h.words, h.fits, h.atOnce⟩, h.connected, h.reached,
      h.within⟩
  constructor
  · -- with the locks free the refresh goes through, and taking and giving them back changes nothing
    intro hfree
    obtain ⟨g₁, hfull, hrun⟩ := refresh_full hfully
    refine ⟨g₁.unlocked, ?_, ?_⟩
    · exact ⟨⟨hfull.names, hfull.given, hfull.missed⟩, hfull.asked, hfull.values, hfull.linkState,
        hfull.messages⟩
    · have hends : refresh tier { g with locks, suppressCount := count } =
          if (g.table tier).names.all g.channel.link.values.contains then .ok () g₁
          else .error (.failed (.device "ERR003")) g₁ := hrun
      rw [updateFrom_eq, if_pos (takeLocks_of_free hfree), hrefresh, hends]
      cases (g.table tier).names.all g.channel.link.values.contains <;> rfl
  · -- somebody holds a lock
    intro hheld
    rw [updateFrom_eq, if_neg (by rw [takeLocks_of_held hheld]; decide)]

/-- A gateway with two names to ask for, of which the device knows the first. The answer to both
    fills the limit to the last byte. -/
def halfKnownGateway : Gateway Device ChangeLog Change where
  channel :=
    { link :=
        { immediateLimit := some 2
          values := ({} : Std.HashMap String String).insert "P1" "1.25" }
      config := { maxReplyBytes := 13 } }
  tiers := (PerTier.replicate {}).set .fast { table := (VariableTable.empty.add "P1").add "P2" }
  linkState := .connected

/-- Of two names the device knows the first, and the refresh fails with the error of the device. -/
theorem updateFrom_full_halfKnown : ∃ g', FullRefresh .fast halfKnownGateway g' ∧
    updateFrom 0 .fast halfKnownGateway = .error (.failed (.device "ERR003")) g' := by
  -- the tier has the two names, and its only command asks for both
  have hkept := VariableTable.kept_add VariableTable.kept_empty "P1"
  have hnames : (halfKnownGateway.table .fast).names = ["P1", "P2"] := by
    have hfirst := (VariableTable.add_empty "P1").1
    have hnew : "P2" ∉ (VariableTable.empty.add "P1").names := by
      rw [hfirst]
      decide
    have hsecond := VariableTable.names_add hkept hnew
    rw [hfirst] at hsecond
    exact hsecond
  have hcommands : (halfKnownGateway.table .fast).commands = ["P1 P2"] := by
    have hall := (VariableTable.kept_add hkept "P2").commands
    show ((VariableTable.empty.add "P1").add "P2").commands = _
    have htwo : ((VariableTable.empty.add "P1").add "P2").names = ["P1", "P2"] := hnames
    rw [hall, htwo, chunksOf_cons]
    show [Text.unwords ["P1", "P2"]] ++ (chunksOf VariableTable.maxNames []).map Text.unwords = _
    rw [chunksOf]
    rfl
  have hvalues : ∀ name : String, halfKnownGateway.channel.link.values[name]? =
      if "P1" == name then some "1.25" else none := by
    intro name
    show (({} : Std.HashMap String String).insert "P1" "1.25")[name]? = _
    rw [Std.HashMap.getElem?_insert, Std.HashMap.getElem?_empty]
  have hwords : Text.words "P1 P2" = ["P1", "P2"] := by decide
  -- the device is reached, its value is plain and the reply fits
  have hpolls : halfKnownGateway.PollsFully .fast := by
    refine ⟨⟨rfl, ⟨rfl, rfl, rfl⟩, ?_, .add "P2" (.add "P1" .empty), ?_, ?_, ?_⟩, rfl, rfl, ?_⟩
    · intro name value h
      rw [hvalues] at h
      split at h
      · obtain rfl := Option.some.inj h
        have hall : (Utf8.encode "1.25").all (fun byte => decide (Control.IsPlain byte)) = true :=
          by decide
        intro byte hbyte
        exact of_decide_eq_true (List.all_eq_true.mp hall byte hbyte)
      · simp at h
    · intro name hname
      rw [hnames] at hname
      rcases List.mem_cons.mp hname with rfl | hname
      · decide
      · obtain rfl := List.mem_singleton.mp hname
        decide
    · intro command hcommand
      rw [hcommands] at hcommand
      obtain rfl := List.mem_singleton.mp hcommand
      decide
    · intro command _
      exact Nat.le_trans (List.length_take_le ..) (show 2 ≤ Frame.maxRead by decide)
    · intro command hcommand
      rw [hcommands] at hcommand
      obtain rfl := List.mem_singleton.mp hcommand
      rw [hwords, answerNames, hvalues, answerNames, hvalues]
      decide
  obtain ⟨g', hfull, hrun⟩ := (updateFrom_full hpolls rfl 0).1 (by simp [halfKnownGateway])
  refine ⟨g', hfull, ?_⟩
  -- the second name is unknown
  have hunknown : (halfKnownGateway.table .fast).names.all
      halfKnownGateway.channel.link.values.contains = false := by
    rw [hnames]
    simp [Std.HashMap.contains_eq_isSome_getElem?, hvalues]
  rw [hunknown, if_neg Bool.false_ne_true] at hrun
  exact hrun

end Gateway

end PmacPoll
