import PmacPoll.Proofs.ChunkedUpdates

/-!
# Lines in their places

An update gives the `i`-th line of a reply to the `i`-th name of its command, as far as there are
both, and writes them down in that order: `Positional`. So of several lines for one name the last
one stays, a line for a name that is not registered is dropped, and no other value changes. Whether
the numbers of names and lines agree has no part in what is written, only in what is returned.

That holds of every table, of every command, whatever names it repeats or makes up, and of every
reply, whatever follows its last carriage return: `updates_positional`.
-/

namespace PmacPoll.VariableTable

open Entries OrderedMap

/-- A name that is asked for and a line stand in the same place. -/
def GivenAt (asked lines : List String) (name line : String) (i : Nat) : Prop :=
  asked[i]? = some name ∧ lines[i]? = some line

/-- How many of the names that have a line are registered. -/
def writtenIn (t : VariableTable) (asked lines : List String) : Nat :=
  (asked.take lines.length).countP fun name => name ∈ t.names

/-- What becomes of a table when lines are given by their places to the names that were asked
    for. -/
structure Positional (asked lines : List String) (before : VariableTable)
    (result : Except Mismatch Nat) (after : VariableTable) : Prop where
  /-- Each line is written to the name in its place, one after another. -/
  inOrder : after.entries = (asked.zip lines).foldl
    (fun entries p => overwrite p.1 p.2 entries) before.entries
  /-- Of the lines for a registered name the last one stays. -/
  last : ∀ {name line i}, name ∈ before.names → GivenAt asked lines name line i →
    (∀ line' j, GivenAt asked lines name line' j → j ≤ i) → after.read name = line
  /-- No other value changes. -/
  others : ∀ {name}, (name ∈ before.names → ∀ line i, ¬ GivenAt asked lines name line i) →
    after.read name = before.read name
  names : after.names = before.names
  size : after.size = before.size
  command : after.command = before.command
  commands : after.commands = before.commands
  returned : result = if asked.length = lines.length then .ok (before.writtenIn asked lines)
    else .error ⟨asked.length, lines.length, before.writtenIn asked lines⟩

variable {t : VariableTable} {s : Nat × VariableTable} {asked lines : List String}

/-! ### Places and pairs -/

/-- A place with a name and a line is a place of their pair. -/
private theorem givenAt_iff {name line : String} {i : Nat} :
    GivenAt asked lines name line i ↔ (asked.zip lines)[i]? = some (name, line) := by
  rw [List.getElem?_zip_eq_some]
  rfl

/-- The names that have a line are the first ones, as many as there are lines. -/
private theorem map_fst_zip_eq_take (asked lines : List String) :
    (asked.zip lines).map Prod.fst = asked.take lines.length := by
  induction asked generalizing lines with
  | nil => simp
  | cons name more ih =>
    cases lines with
    | nil => rfl
    | cons line others => simp [ih]

/-! ### Storing pairs in order -/

/-- The pairs are written over the entries one after another. -/
private theorem entries_stored_eq_foldl (h : s.2.Kept) (pairs : List (String × String)) :
    (stored s pairs).2.entries =
      pairs.foldl (fun entries p => overwrite p.1 p.2 entries) s.2.entries := by
  induction pairs generalizing s with
  | nil => rfl
  | cons p more ih =>
    rw [List.foldl_cons, ← entries_store h]
    exact ih (kept_store h p)

/-- The last pair for a registered name is the one that stays. -/
private theorem read_stored_last (h : s.2.Kept) {before after : List (String × String)}
    {name line : String} (hname : name ∈ s.2.names) (hafter : name ∉ after.map Prod.fst) :
    (stored s (before ++ (name, line) :: after)).2.read name = line := by
  obtain ⟨hkept, hnames⟩ := kept_stored h before
  have hhere := read_store_self (p := (name, line)) hkept (hnames ▸ hname)
  rw [stored_append]
  rcases read_stored (kept_store hkept (name, line)) after name with hsame | hlater
  · exact hsame.trans hhere
  · exact absurd (List.mem_map_of_mem hlater) hafter

/-! ### One update -/

/-- One distribution of a reply, over whatever names, writes each line in its place. -/
theorem positional_assign (h : t.Kept) (asked : List String) (reply : String) :
    Positional asked (Text.endedLines reply) t (t.assign asked reply).1
      (t.assign asked reply).2 := by
  generalize hlines : Text.endedLines reply = lines
  have hassign : t.assign asked reply =
      (if asked.length = lines.length then .ok (stored (0, t) (asked.zip lines)).1
        else .error ⟨asked.length, lines.length, (stored (0, t) (asked.zip lines)).1⟩,
      (stored (0, t) (asked.zip lines)).2) := by
    rw [assign, hlines]
    rfl
  obtain ⟨hkept, hnames⟩ := kept_stored (s := (0, t)) h (asked.zip lines)
  obtain ⟨hcommands, hplaces⟩ := places_stored (0, t) (asked.zip lines)
  rw [hassign]
  refine ⟨entries_stored_eq_foldl h _, ?_, ?_, hnames, ?_, congrArg Text.unwords hnames,
    hcommands, ?_⟩
  · -- the pairs behind the place have another name, so the line stays
    intro name line i hname hplace hlast
    obtain ⟨hi, hget⟩ := List.getElem?_eq_some_iff.mp (givenAt_iff.mp hplace)
    have hsplit : asked.zip lines =
        (asked.zip lines).take i ++ (name, line) :: (asked.zip lines).drop (i + 1) := by
      rw [← hget, ← List.drop_eq_getElem_cons, List.take_append_drop]
    rw [hsplit]
    refine read_stored_last (s := (0, t)) h hname fun hmem => ?_
    -- a pair for the name behind its last place
    obtain ⟨⟨_, line'⟩, hpair, rfl⟩ := List.mem_map.mp hmem
    obtain ⟨j, hj⟩ := List.mem_iff_getElem?.mp hpair
    rw [List.getElem?_drop] at hj
    have hle := hlast line' _ (givenAt_iff.mpr hj)
    omega
  · -- a name without a place is not registered or is in no pair
    intro name hnone
    by_cases hname : name ∈ t.names
    · refine (read_stored (s := (0, t)) h (asked.zip lines) name).resolve_right fun hpair => ?_
      obtain ⟨i, hi⟩ := List.mem_iff_getElem?.mp hpair
      exact hnone hname _ i (givenAt_iff.mpr hi)
    · rw [read_of_not_mem h hname, read_of_not_mem hkept fun hmem => hname (hnames ▸ hmem)]
  · exact congrArg (fun places => places.2.1.size) hplaces
  · -- the pairs with a registered name are counted
    have hcount : (stored (0, t) (asked.zip lines)).1 = t.writtenIn asked lines := by
      rw [fst_stored (s := (0, t)) h, Nat.zero_add, writtenIn, ← map_fst_zip_eq_take,
        List.countP_map]
      rfl
    rw [hcount]

/-- **Lines go to names by their places.** A reply has the lines that its carriage returns end. An
    update with a reply to a command gives them to the words of the command, and one with a reply
    for all names gives them to the names in the order of registration. -/
theorem updates_positional (h : t.Built) (reply : String) :
    ∃ lines, Text.LinesOf reply lines ∧
      (∀ command, Positional (Text.words command) lines t (t.updateChunk command reply).1
        (t.updateChunk command reply).2) ∧
      Positional t.names lines t (t.update reply).1 (t.update reply).2 :=
  ⟨Text.endedLines reply, Text.linesOf_iff.mpr rfl,
    fun command => positional_assign (kept_of_built h) (Text.words command) reply,
    positional_assign (kept_of_built h) t.names reply⟩

/-- One name comes twice and one is not registered; the last line is not ended. A reply for all
    names has a line for the first one only. -/
theorem updates_positional_twice :
    let t := empty.addAll ["P1", "P2"]
    (t.updateChunk " P2  P1\tP3 P2\n" "1\r2\r3\r4\r5").1 = .ok 3 ∧
      (t.updateChunk " P2  P1\tP3 P2\n" "1\r2\r3\r4\r5").2.read "P2" = "4" ∧
      (t.update "9\r").1 = .error ⟨2, 1, 1⟩ ∧
      (t.update "9\r").2.read "P2" = t.read "P2" := by
  intro t
  have hnames : t.names = ["P1", "P2"] := (addAll_pair (by decide)).1
  have hbuilt : t.Built := Built.empty.addAll _
  obtain ⟨lines, hlines, hchunk, -⟩ := updates_positional hbuilt "1\r2\r3\r4\r5"
  obtain ⟨short, hshort, -, hwhole⟩ := updates_positional hbuilt "9\r"
  obtain rfl : lines = ["1", "2", "3", "4"] := by
    rw [← Text.linesOf_iff.mp hlines]
    decide
  obtain rfl : short = ["9"] := by
    rw [← Text.linesOf_iff.mp hshort]
    decide
  have hchunk := hchunk " P2  P1\tP3 P2\n"
  rw [show Text.words " P2  P1\tP3 P2\n" = ["P2", "P1", "P3", "P2"] by decide] at hchunk
  rw [hnames] at hwhole
  refine ⟨?_, ?_, ?_, ?_⟩
  · -- three of the four names with a line are registered
    rw [hchunk.returned, writtenIn, hnames]
    rfl
  · have hplace : GivenAt ["P2", "P1", "P3", "P2"] ["1", "2", "3", "4"] "P2" "4" 3 := ⟨rfl, rfl⟩
    refine hchunk.last (by rw [hnames]; decide) hplace fun line j hother => ?_
    -- no place is behind the fourth one
    obtain ⟨hlt, -⟩ := List.getElem?_eq_some_iff.mp hother.1
    exact Nat.le_of_lt_succ hlt
  · rw [hwhole.returned, writtenIn, hnames]
    rfl
  · refine hwhole.others fun _ line i hplace => ?_
    -- the one line is the first, and the name is the second
    cases i with
    | zero => exact absurd hplace.1 (by decide)
    | succ i => exact nomatch hplace.2

end PmacPoll.VariableTable
