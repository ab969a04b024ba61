import PmacPoll.Gateway.Refresh
import PmacPoll.Proofs.TableContents

/-!
# Storing the replies of a refresh

Each reply is stored under the words of its command, one line for each, `table_reply`. So a value
after the replies are stored is the one before or a line that came for its name, `read_replies`; and
if nothing was wrong with them, `Clean`, every name that was asked for got a line,
`read_replies_of_ok`.
-/

namespace PmacPoll

/-- The text of a reply that is stored: up to a reported error, if there is one. -/
def Reply.storedText (reply : Reply) : String :=
  if reply.isDeviceError then reply.valuesText else reply.text

namespace Gateway.Stored

open VariableTable

variable {s : Stored} {command : String} {reply : Reply} {replies : List (String × Reply)}

/-- A line of one of the replies stands in the place of the name. -/
def CameFor (replies : List (String × Reply)) (name line : String) : Prop :=
  ∃ r ∈ replies, (name, line) ∈ (Text.words r.1).zip (Text.endedLines r.2.storedText)

/-- A reply that is all right: it reports no error and has one line for each word of its command. -/
structure Clean (r : String × Reply) : Prop where
  silent : r.2.isDeviceError = false
  lengths : (Text.words r.1).length = (Text.endedLines r.2.storedText).length

instance (r : String × Reply) : Decidable (Clean r) :=
  decidable_of_iff (r.2.isDeviceError = false ∧
    (Text.words r.1).length = (Text.endedLines r.2.storedText).length)
    ⟨fun h => ⟨h.1, h.2⟩, fun h => ⟨h.silent, h.lengths⟩⟩

/-! ### One reply -/

/-- A reply is stored under the words of its command. -/
theorem table_reply (s : Stored) (command : String) (reply : Reply) :
    (s.reply command reply).table = (s.table.updateChunk command reply.storedText).2 := by
  unfold Stored.reply Reply.storedText
  split
  · rfl
  · split
    · next h => rw [h]
    · next h => rw [h]

/-- An error that there was stays, and a reply that is not all right makes one. -/
private theorem error_reply_eq_none_iff :
    (s.reply command reply).error = none ↔ s.error = none ∧ Clean (command, reply) := by
  unfold Stored.reply
  -- a device error is an error, and else it is the number of lines that may be wrong
  cases hdevice : reply.isDeviceError with
  | true =>
    rw [if_pos rfl]
    refine ⟨fun h => ?_, fun ⟨_, hclean⟩ => ?_⟩
    · cases hs : s.error <;> (rw [hs] at h; exact nomatch h)
    · rw [hclean.silent] at hdevice
      exact absurd hdevice Bool.false_ne_true
  | false =>
    have htext : reply.storedText = reply.text := by
      rw [Reply.storedText, hdevice, if_neg Bool.false_ne_true]
    rw [if_neg Bool.false_ne_true, updateChunk, assign]
    by_cases hlengths : (Text.words command).length = (Text.endedLines reply.text).length
    · simp only [if_pos hlengths]
      exact ⟨fun h => ⟨h, hdevice, htext ▸ hlengths⟩, And.left⟩
    · simp only [if_neg hlengths]
      refine ⟨fun h => ?_, fun ⟨_, hclean⟩ => absurd (htext ▸ hclean.lengths) hlengths⟩
      cases hs : s.error <;> (rw [hs] at h; exact nomatch h)

/-- Storing a reply counts whether it is short or reports an error, and nothing else. -/
private theorem counters_reply (s : Stored) (command : String) (reply : Reply) :
    ∃ mismatches deviceErrors,
      (s.reply command reply).counters = { s.counters with mismatches, deviceErrors } := by
  unfold Stored.reply
  split
  · exact ⟨_, _, rfl⟩
  · split <;> exact ⟨_, _, rfl⟩

/-- A reply leaves the names, and the commands current. -/
theorem kept_reply (h : s.table.Kept) (command : String) (reply : Reply) :
    (s.reply command reply).table.Kept ∧
      (s.reply command reply).table.names = s.table.names := by
  rw [table_reply]
  exact kept_stored h _

/-- A value after a reply is the one before or a line that came for its name. -/
private theorem read_reply (h : s.table.Kept) (command : String) (reply : Reply) (name : String) :
    (s.reply command reply).table.read name = s.table.read name ∨
      (name, (s.reply command reply).table.read name) ∈
        (Text.words command).zip (Text.endedLines reply.storedText) := by
  rw [table_reply]
  exact read_stored h _ name

/-! ### All replies -/

/-- Replies are stored one after another. -/
theorem replies_cons (s : Stored) (r : String × Reply) (more : List (String × Reply)) :
    s.replies (r :: more) = (s.reply r.1 r.2).replies more := rfl

/-- Replies leave the names, and the commands current. -/
theorem kept_replies (h : s.table.Kept) (replies : List (String × Reply)) :
    (s.replies replies).table.Kept ∧ (s.replies replies).table.names = s.table.names := by
  induction replies generalizing s with
  | nil => exact ⟨h, rfl⟩
  | cons r more ih =>
    obtain ⟨hkept, hnames⟩ := kept_reply h r.1 r.2
    obtain ⟨hkept', hnames'⟩ := ih hkept
    exact ⟨hkept', hnames'.trans hnames⟩

/-- Storing replies counts errors and nothing else. -/
theorem counters_replies (s : Stored) (replies : List (String × Reply)) :
    ∃ mismatches deviceErrors,
      (s.replies replies).counters = { s.counters with mismatches, deviceErrors } := by
  induction replies generalizing s with
  | nil => exact ⟨_, _, rfl⟩
  | cons r more ih =>
    obtain ⟨_, _, hreply⟩ := counters_reply s r.1 r.2
    obtain ⟨_, _, hmore⟩ := ih (s.reply r.1 r.2)
    rw [replies_cons, hmore, hreply]
    exact ⟨_, _, rfl⟩

/-- A value after the replies are stored is the one before, or a line that came for its name. -/
theorem read_replies (h : s.table.Kept) (replies : List (String × Reply)) (name : String) :
    (s.replies replies).table.read name = s.table.read name ∨
      CameFor replies name ((s.replies replies).table.read name) := by
  induction replies generalizing s with
  | nil => exact Or.inl rfl
  | cons r more ih =>
    rw [replies_cons]
    -- the value is what the later replies left, or it came with one of them
    rcases ih (kept_reply h r.1 r.2).1 with hsame | ⟨r', hr', hcame⟩
    · rw [hsame]
      rcases read_reply h r.1 r.2 name with hbefore | hcame
      · exact Or.inl hbefore
      · exact Or.inr ⟨r, List.mem_cons_self .., hcame⟩
    · exact Or.inr ⟨r', List.mem_cons_of_mem r hr', hcame⟩

/-- A name for which no line came keeps its value. -/
theorem read_replies_of_none (h : s.table.Kept) {name : String}
    (hnone : ∀ line, ¬ CameFor replies name line) :
    (s.replies replies).table.read name = s.table.read name :=
  (read_replies h replies name).resolve_right (hnone _)

/-- There is no error just if there was none and all replies are all right. -/
theorem error_replies_eq_none_iff :
    (s.replies replies).error = none ↔ s.error = none ∧ ∀ r ∈ replies, Clean r := by
  induction replies generalizing s with
  | nil => simp [Stored.replies]
  | cons r more ih =>
    rw [replies_cons, ih, error_reply_eq_none_iff, List.forall_mem_cons, and_assoc]

/-- A registered name for which a line came holds one that came for it. -/
theorem read_replies_of_mem (h : s.table.Kept) {name : String} (hname : name ∈ s.table.names)
    (hcame : ∃ line, CameFor replies name line) :
    CameFor replies name ((s.replies replies).table.read name) := by
  induction replies generalizing s with
  | nil =>
    obtain ⟨line, r, hr, -⟩ := hcame
    exact nomatch hr
  | cons r more ih =>
    obtain ⟨hkept, hnames⟩ := kept_reply h r.1 r.2
    rw [replies_cons]
    -- The last reply with a line for the name decides.
    by_cases hmore : ∃ line, CameFor more name line
    · obtain ⟨r', hr', hline⟩ := ih hkept (hnames ▸ hname) hmore
      exact ⟨r', List.mem_cons_of_mem r hr', hline⟩
    · have hpair : name ∈ ((Text.words r.1).zip (Text.endedLines r.2.storedText)).map (·.1) := by
        obtain ⟨line, r', hr', hline⟩ := hcame
        rcases List.mem_cons.mp hr' with rfl | hr'
        · exact List.mem_map_of_mem hline
        · exact absurd ⟨line, r', hr', hline⟩ hmore
      have hhere := read_stored_of_mem (s := (0, s.table)) h hname hpair
      rcases read_replies hkept more name with hsame | hline
      · rw [hsame, table_reply]
        exact ⟨r, List.mem_cons_self .., hhere⟩
      · exact absurd ⟨_, hline⟩ hmore

/-- If nothing was wrong, every registered name that was asked for holds a line that came for it. -/
theorem read_replies_of_ok (h : s.table.Kept) (hok : (s.replies replies).error = none)
    {name : String} (hname : name ∈ s.table.names)
    (hasked : ∃ r ∈ replies, name ∈ Text.words r.1) :
    CameFor replies name ((s.replies replies).table.read name) := by
  apply read_replies_of_mem h hname
  obtain ⟨r, hr, hword⟩ := hasked
  -- there are as many lines as words, so one of them stands in the place of the name
  have hlengths := ((error_replies_eq_none_iff.mp hok).2 r hr).lengths
  rw [← List.map_fst_zip (Nat.le_of_eq hlengths)] at hword
  obtain ⟨⟨_, line⟩, hline, rfl⟩ := List.mem_map.mp hword
  exact ⟨line, r, hr, hline⟩

end Gateway.Stored

end PmacPoll
