import PmacPoll.Proofs.AssignedNames
import PmacPoll.Proofs.ChunkedUpdates
import PmacPoll.Proofs.ReportedErrors

/-!
# What the replies to the chunks come to

A refresh whose commands are all answered stores every reply, be it whole, short, cut off or a
report: each name holds the line in its place if there is one, and else what it held before. The
refresh fails just if something is wrong with one of the replies, `offence`, and it fails for the
first of them, `ChunkOutcome`. The main result is `updateFrom_chunkOutcome`.

The names of a table are all different, so a line can come for a name from one place only. That is
why the order does not matter in which the replies are stored: `table_replies_perm`.
-/

namespace PmacPoll

open VariableTable Gateway

namespace Reply

/-- The lines that a reply has for its names: those before a bell, if there is one. -/
def givenLines (reply : Reply) : List String :=
  Text.endedLines
    (if Control.bell ∈ reply.data then Utf8.decode (beforeBell reply.data) else reply.text)

/-- What is wrong with a reply to the command for some names, if anything is. -/
def offence (chunk : List String) (reply : Reply) : Option GatewayError :=
  if Control.bell ∈ reply.data then reply.errorCode?.map .device
  else if chunk.length = reply.givenLines.length then none
  else some (.mismatch ⟨chunk.length, reply.givenLines.length,
    min chunk.length reply.givenLines.length⟩)

variable {reply : Reply}

/-! ### One reply -/

/-- What is stored of a reply are its given lines. -/
private theorem endedLines_storedText (reply : Reply) :
    Text.endedLines reply.storedText = reply.givenLines := by
  rw [storedText, givenLines]
  by_cases h : Control.bell ∈ reply.data
  · obtain ⟨hoffset, htake⟩ := errorOffset?_eq h
    rw [if_pos h, if_pos (isDeviceError_iff.mpr h), valuesText, hoffset]
    simp only [htake]
  · rw [if_neg h, if_neg (fun herror => h (isDeviceError_iff.mp herror))]

/-- Nothing is wrong with a reply just if it has no bell and a line for each name. -/
private theorem offence_eq_none_iff {chunk : List String} : offence chunk reply = none ↔
    Control.bell ∉ reply.data ∧ chunk.length = reply.givenLines.length := by
  unfold offence
  by_cases h : Control.bell ∈ reply.data
  · rw [if_pos h, errorCode?, (errorOffset?_eq h).1]
    exact iff_of_false (Option.some_ne_none _) fun hnone => hnone.1 h
  · rw [if_neg h]
    by_cases hlength : chunk.length = reply.givenLines.length
    · rw [if_pos hlength]
      exact iff_of_true rfl ⟨h, hlength⟩
    · rw [if_neg hlength]
      exact iff_of_false (Option.some_ne_none _) fun hnone => hlength hnone.2

end Reply

namespace Gateway.Stored

variable {s : Stored} {replies pairs : List (String × Reply)}

/-! ### What is wrong -/

/-- An error that there was stays; else it is what is wrong with the reply. -/
private theorem error_reply (h : s.table.Kept) {command : String} (reply : Reply)
    (hregistered : ∀ name ∈ Text.words command, name ∈ s.table.names) :
    (s.reply command reply).error = (s.error <|> reply.offence (Text.words command)) := by
  unfold Stored.reply Reply.offence
  -- a bell makes a device error, whatever the number of lines
  by_cases hbell : Control.bell ∈ reply.data
  · rw [if_pos (Reply.isDeviceError_iff.mpr hbell), if_pos hbell, Reply.errorCode?,
      (Reply.errorOffset?_eq hbell).1]
    rfl
  · have hlines : Text.endedLines reply.text = reply.givenLines := by
      rw [Reply.givenLines, if_neg hbell]
    rw [if_neg fun herror => hbell (Reply.isDeviceError_iff.mp herror), if_neg hbell, updateChunk,
      assign, hlines]
    by_cases hlength : (Text.words command).length = reply.givenLines.length
    · simp only [if_pos hlength]
      cases s.error <;> rfl
    · -- every line that has a name is stored
      have hcount :
          (VariableTable.stored (0, s.table) ((Text.words command).zip reply.givenLines)).1 =
            min (Text.words command).length reply.givenLines.length := by
        have hpairs : ∀ pair ∈ (Text.words command).zip reply.givenLines,
            pair.1 ∈ s.table.names :=
          fun pair hpair => hregistered pair.1 (List.of_mem_zip hpair).1
        rw [fst_stored_of_registered (s := (0, s.table)) h hpairs, List.length_zip, Nat.zero_add]
      rw [VariableTable.stored] at hcount
      simp only [if_neg hlength, hcount]

/-- A refresh fails for the first reply with which something is wrong. -/
private theorem error_replies (h : s.table.Kept)
    (hregistered : ∀ r ∈ replies, ∀ name ∈ Text.words r.1, name ∈ s.table.names) :
    (s.replies replies).error =
      (s.error <|> replies.findSome? fun r => r.2.offence (Text.words r.1)) := by
  -- an error that is there stays, and later replies are judged as if the earlier ones were not
  -- there
  induction replies generalizing s with
  | nil => cases hs : s.error <;> simp [Stored.replies, hs]
  | cons r more ih =>
    obtain ⟨hkept, hnames⟩ := kept_reply h r.1 r.2
    have hmore : ∀ r' ∈ more, ∀ name ∈ Text.words r'.1,
        name ∈ (s.reply r.1 r.2).table.names := by
      intro r' hr'
      rw [hnames]
      exact hregistered r' (List.mem_cons_of_mem r hr')
    rw [replies_cons, ih hkept hmore, error_reply h r.2 (hregistered r List.mem_cons_self),
      List.findSome?_cons]
    cases s.error <;> cases r.2.offence (Text.words r.1) <;> rfl

/-! ### What is stored -/

/-- A name that has one place holds the line in it if there is one, and else what it held before. -/
private theorem read_replies_of_place (h : s.table.Kept) {name : String}
    (hname : name ∈ s.table.names)
    (honce : ((replies.map Prod.fst).flatMap Text.words).count name ≤ 1) {i j : Nat}
    {r : String × Reply} (hr : replies[i]? = some r) (hj : (Text.words r.1)[j]? = some name) :
    (s.replies replies).table.read name = r.2.givenLines[j]?.getD (s.table.read name) := by
  cases hline : r.2.givenLines[j]? with
  | some line =>
    have hcame : CameFor replies name line := by
      refine cameFor_iff.mpr ⟨i, j, r, hr, hj, ?_⟩
      rw [Reply.endedLines_storedText, hline]
    exact hcame.unique honce (read_replies_of_mem h hname ⟨line, hcame⟩)
  | none =>
    refine read_replies_of_none h fun line hcame => ?_
    -- another line cannot have come for the name, as this is its only place
    obtain ⟨i', j', hplace⟩ := cameFor_iff.mp hcame
    have hasked : AskedAt (replies.map Prod.fst) name i j := by
      refine ⟨r.1, ?_, hj⟩
      rw [List.getElem?_map, hr]
      rfl
    obtain ⟨rfl, rfl⟩ := AskedAt.unique honce hasked hplace.asked
    obtain ⟨r', hr', -, hthere⟩ := hplace
    obtain rfl := Option.some.inj (hr.symm.trans hr')
    rw [Reply.endedLines_storedText, hline] at hthere
    exact absurd hthere.symm (Option.some_ne_none _)

/-- Storing replies changes no command and no place. -/
private theorem places_replies (s : Stored) (replies : List (String × Reply)) :
    (s.replies replies).table.commands = s.table.commands ∧
      (s.replies replies).table.values.places = s.table.values.places := by
  induction replies generalizing s with
  | nil => exact ⟨rfl, rfl⟩
  | cons r more ih =>
    obtain ⟨hcommands, hplaces⟩ := ih (s.reply r.1 r.2)
    rw [table_reply] at hcommands hplaces
    obtain ⟨hcommands', hplaces'⟩ := places_stored (0, s.table)
      ((Text.words r.1).zip (Text.endedLines r.2.storedText))
    exact ⟨hcommands.trans hcommands', hplaces.trans hplaces'⟩

/-- Replies to commands that ask for each name once make the same table in any order. -/
theorem table_replies_perm (h : s.table.Kept)
    (honce : ∀ name, ((replies.map Prod.fst).flatMap Text.words).count name ≤ 1)
    (hpairs : pairs.Perm replies) : (s.replies pairs).table = (s.replies replies).table := by
  obtain ⟨hcommands, hplaces⟩ := places_replies s pairs
  obtain ⟨hcommands', hplaces'⟩ := places_replies s replies
  obtain ⟨hkept, hnames⟩ := kept_replies h pairs
  obtain ⟨hkept', hnames'⟩ := kept_replies h replies
  -- a line came for a name in either order or in none
  have hcame : ∀ name line, CameFor pairs name line ↔ CameFor replies name line := by
    intro name line
    simp only [CameFor, hpairs.mem_iff]
  have hread : ∀ name ∈ s.table.names,
      (s.replies pairs).table.read name = (s.replies replies).table.read name := by
    intro name hname
    -- a name is asked for in one place, so the line that it holds is the same either way
    by_cases hline : ∃ line, CameFor replies name line
    · have hthere := read_replies_of_mem h hname hline
      have hhere := read_replies_of_mem h hname
        (hline.imp fun line hline => (hcame name line).mpr hline)
      exact hthere.unique (honce name) ((hcame name _).mp hhere)
    · rw [read_replies_of_none h fun line hline' => hline ⟨line, hline'⟩,
        read_replies_of_none h fun line hline' => hline ⟨line, (hcame name line).mp hline'⟩]
  -- the commands and the places are the same, so it is enough that the values are
  refine eq_of_entries (hcommands.trans hcommands'.symm) (hplaces.trans hplaces'.symm) ?_
  rw [entries_eq_map_read hkept, entries_eq_map_read hkept', hnames, hnames']
  exact List.map_congr_left fun name hname => by rw [hread name hname]

end Gateway.Stored

namespace Gateway

open Stored

/-! ### All chunks -/

/-- What the replies to the chunks of a table make of it, and what there is wrong with them. -/
structure ChunkOutcome (before : VariableTable) (replies : List Reply) (after : VariableTable)
    (error : Option GatewayError) : Prop where
  names : after.names = before.names
  commands : after.commands = before.commands
  /-- A name holds the line in its place if there is one, and else what it held before. -/
  given : ∀ {i j : Nat} {chunk : List String} {reply : Reply} {name : String},
    (chunksOf maxNames before.names)[i]? = some chunk → replies[i]? = some reply →
    chunk[j]? = some name → after.read name =
      reply.givenLines[j]?.getD (before.read name)
  /-- The error is that of the first reply with which something is wrong. -/
  first : error =
    ((chunksOf maxNames before.names).zip replies).findSome? fun p => p.2.offence p.1
  /-- Nothing is wrong with a reply that has no bell and a line for each name. -/
  none_iff : error = none ↔ ∀ p ∈ (chunksOf maxNames before.names).zip replies,
    Control.bell ∉ p.2.data ∧ p.1.length = p.2.givenLines.length

variable {s : Stored} {replies : List Reply}

/-- The commands of a table ask for each word once, if all names are words. -/
private theorem count_commands_le_one {t : VariableTable} (h : t.Kept)
    (hwords : ∀ name ∈ t.names, Text.IsWord name) (hlength : replies.length = t.commands.length)
    (name : String) :
    (((t.commands.zip replies).map Prod.fst).flatMap Text.words).count name ≤ 1 := by
  rw [List.map_fst_zip (Nat.le_of_eq hlength.symm), List.flatMap_def, flatten_commands h hwords]
  exact List.nodup_iff_count.mp (OrderedMap.nodup_keys h.coherent) name

/-- What the replies to all commands come to, in a table that was built. -/
private theorem chunkOutcome_of_built (hbuilt : s.table.Built)
    (hwords : ∀ name ∈ s.table.names, Text.IsWord name)
    (hlength : replies.length = s.table.commands.length) (hnone : s.error = none) :
    ChunkOutcome s.table replies (s.replies (s.table.commands.zip replies)).table
      (s.replies (s.table.commands.zip replies)).error := by
  have hkept := kept_of_built hbuilt
  have hchunks := words_commands hkept hwords
  have hcount := count_commands_le_one hkept hwords hlength
  -- every name that is asked for is registered
  have hregistered : ∀ r ∈ s.table.commands.zip replies, ∀ name ∈ Text.words r.1,
      name ∈ s.table.names := by
    intro r hr name hname
    rw [← flatten_commands hkept hwords]
    exact List.mem_flatten_of_mem (List.mem_map_of_mem (List.of_mem_zip hr).1) hname
  have hfirst : (s.replies (s.table.commands.zip replies)).error =
      ((chunksOf maxNames s.table.names).zip replies).findSome? fun p => p.2.offence p.1 := by
    rw [error_replies hkept hregistered, hnone, ← hchunks, List.zip_map_left, List.findSome?_map]
    rfl
  refine ⟨(kept_replies hkept _).2, (places_replies s _).1, ?_, hfirst, ?_⟩
  · -- the chunk is cut from its command, so the line in the place of the name is the one it gets
    intro i j chunk reply name hi hreply hj
    rw [← hchunks, List.getElem?_map, Option.map_eq_some_iff] at hi
    obtain ⟨command, hcommand, rfl⟩ := hi
    have hr : (s.table.commands.zip replies)[i]? = some (command, reply) :=
      List.getElem?_zip_eq_some.mpr ⟨hcommand, hreply⟩
    have hname : name ∈ s.table.names :=
      hregistered (command, reply) (List.mem_of_getElem? hr) name (List.mem_of_getElem? hj)
    exact read_replies_of_place (r := (command, reply)) hkept hname (hcount name) hr hj
  · rw [hfirst, List.findSome?_eq_none_iff]
    exact forall₂_congr fun p _ => Reply.offence_eq_none_iff

/-- The replies to the commands of a tier, one to each, stored in order. -/
def storedInOrder {σ κ ω : Type} (g : Gateway σ κ ω) (tier : Tier) (replies : List Reply) :
    Stored :=
  g.stored tier ((g.table tier).commands.zip replies)

variable {σ κ ω : Type} [Transport σ] [Listener κ ω]

/-- **What a refresh comes to whose commands are all answered.** Each name is a word, and there is a
    reply to each command, of whatever bytes. Then all replies are stored, whatever is wrong with
    some of them, and it does not matter in which order. A refresh that gets these replies makes
    that of the table, and it fails for the first reply with which something is wrong. -/
theorem updateFrom_chunkOutcome {g : Gateway σ κ ω} (tier : Tier) (hbuilt : (g.table tier).Built)
    (hwords : ∀ name ∈ (g.table tier).names, Text.IsWord name) (replies : List Reply)
    (hlength : replies.length = (g.table tier).commands.length) :
    ChunkOutcome (g.table tier) replies (g.storedInOrder tier replies).table
      (g.storedInOrder tier replies).error ∧
    (∀ pairs, pairs.Perm ((g.table tier).commands.zip replies) →
      (g.stored tier pairs).table = (g.storedInOrder tier replies).table) ∧
    ∀ taken c, g.isConnected = true → (g.suppresses tier).1 = false →
      (∀ held ∈ g.locks.drop taken, held = false) →
      Channel.Exchanged g.channel ((g.table tier).commands.zip replies) c →
      ∃ g', g'.channel = c ∧ g'.table tier = (g.storedInOrder tier replies).table ∧
        updateFrom taken tier g = raise (g.storedInOrder tier replies).error g' := by
  have hkept := kept_of_built hbuilt
  refine ⟨?_, fun pairs hpairs => ?_, fun taken c hconnected hcarried hfree hexchanged => ?_⟩
  · exact chunkOutcome_of_built (s := ⟨g.table tier, g.counters, none⟩) hbuilt hwords hlength rfl
  · exact table_replies_perm (s := ⟨g.table tier, g.counters, none⟩) hkept
      (count_commands_le_one hkept hwords hlength) hpairs
  · exact updateFrom_of_exchanged taken tier hconnected hcarried hfree
      (List.map_fst_zip (Nat.le_of_eq hlength.symm)) hexchanged

/-- The answers to two commands: one value, and one value with a report behind it. -/
def oneValueEach : List Bytes :=
  [Utf8.encode "7\r\x06", Utf8.encode "9\r\x07ERR003\r"]

/-- One name more than a command asks for, and a device that answers each of the two commands with
    one value. -/
def fortyOneGateway : Gateway Device ChangeLog Change :=
  scriptedGateway (VariableTable.empty.addAll fortyOne) oneValueEach

/-- The first reply is short, so the refresh fails for it; the value in the second is stored all the
    same, and so is the one before its report. -/
theorem updateFrom_chunkOutcome_fortyOne : ∃ g',
    updateFrom 0 .fast fortyOneGateway = .error (.failed (.mismatch ⟨40, 1, 1⟩)) g' ∧
    (g'.table .fast).read "M0" = "7" ∧ (g'.table .fast).read "M40" = "9" := by
  have hbuilt : (VariableTable.empty.addAll fortyOne).Built := Built.empty.addAll fortyOne
  have hnames : (VariableTable.empty.addAll fortyOne).names = fortyOne :=
    names_addAll kept_empty (by decide +kernel)
  unfold fortyOneGateway
  generalize VariableTable.empty.addAll fortyOne = t at hbuilt hnames
  have hwords : ∀ name ∈ t.names, Text.IsWord name := by
    rw [hnames]
    decide +kernel
  have hchunks : chunksOf maxNames t.names = [fortyOne.take 40, ["M40"]] := by
    rw [hnames, chunksOf_fortyOne]
  have hlength : oneValueEach.length = t.commands.length := by
    rw [(kept_of_built hbuilt).commands, hchunks]
    rfl
  -- the replies are those to the two commands of the table, and the device gives them
  obtain ⟨houtcome, -, hrun⟩ := updateFrom_chunkOutcome (g := scriptedGateway t oneValueEach)
    .fast hbuilt hwords (oneValueEach.map (Reply.scan 1024)) hlength
  obtain ⟨c, hexchanged⟩ := exchanged_scriptedGateway t hlength (by decide)
  obtain ⟨g', -, hstored, hupdate⟩ := hrun 0 c rfl rfl (by simp [scriptedGateway]) hexchanged
  have herror : ((scriptedGateway t oneValueEach).storedInOrder .fast
      (oneValueEach.map (Reply.scan 1024))).error = some (.mismatch ⟨40, 1, 1⟩) := by
    rw [houtcome.first, table_scriptedGateway, hchunks]
    rfl
  have hplace : ∀ i : Nat,
      (chunksOf maxNames ((scriptedGateway t oneValueEach).table .fast).names)[i]? =
        [fortyOne.take 40, ["M40"]][i]? := by
    intro i
    rw [table_scriptedGateway, hchunks]
  rw [herror] at hupdate
  refine ⟨g', hupdate, ?_, ?_⟩
  · -- both names are the first of their chunks
    rw [hstored]
    exact houtcome.given (j := 0) (hplace 0) rfl rfl
  · rw [hstored]
    exact houtcome.given (j := 0) (hplace 1) rfl rfl

end Gateway

end PmacPoll
