import PmacPoll.Proofs.TableContents

/-!
# Updating chunk by chunk

A table whose names can be told apart gets the same values from one reply to the command for all
names as from the replies to its commands, whatever their order, `updateChunks_eq_update`.

The reason is that an update only stores values, and that a table is known from its commands, the
places of its names and its entries, `eq_of_entries`. Every list of one value for each name, in any
order, leaves the same entries, `entries_stored`.
-/

namespace PmacPoll.VariableTable

open Entries OrderedMap

/-- Stores replies to some commands one after another, and gives the result of each. -/
def updateChunks (t : VariableTable) :
    List (String × String) → List (Except Mismatch Nat) × VariableTable
  | [] => ([], t)
  | (command, reply) :: more =>
    let (result, t) := t.updateChunk command reply
    let (results, t) := t.updateChunks more
    (result :: results, t)

/-- The value for a name; empty if there is none. -/
def valueOf (given : List (String × String)) (name : String) : String :=
  (given.lookup name).getD ""

/-- The reply to a command that has the given values. -/
def replyFor (given : List (String × String)) (command : String) : String :=
  Text.unlines ((Text.words command).map (valueOf given))

variable {t : VariableTable} {names values : List String}

/-! ### Giving values to names -/

/-- A name that is given a value has one of those that are given. -/
private theorem valueOf_mem {given : List (String × String)} {name : String}
    (h : name ∈ given.map (·.1)) : valueOf given name ∈ given.map (·.2) := by
  induction given with
  | nil => exact nomatch h
  | cons pair more ih =>
    rw [valueOf, List.lookup_cons]
    by_cases heq : name = pair.1
    · rw [beq_iff_eq.mpr heq]
      exact List.mem_cons_self
    · rw [beq_false_of_ne heq]
      exact List.mem_cons_of_mem _ (ih ((List.mem_cons.mp h).resolve_left heq))

/-- Each name has the value in its place. -/
private theorem map_valueOf (hnodup : names.Nodup) (hlength : names.length = values.length) :
    names.map (fun name => (name, valueOf (names.zip values) name)) = names.zip values := by
  -- the first value belongs to the first name, which does not come again
  induction names generalizing values with
  | nil => rfl
  | cons name more ih =>
    cases values with
    | nil => exact nomatch hlength
    | cons value others =>
      obtain ⟨hfresh, hmore⟩ := List.nodup_cons.mp hnodup
      have hothers : ∀ n ∈ more, (n, valueOf ((name, value) :: more.zip others) n) =
          (n, valueOf (more.zip others) n) := by
        intro n hn
        have hne : n ≠ name := fun heq => hfresh (heq ▸ hn)
        rw [valueOf, List.lookup_cons, beq_false_of_ne hne, valueOf]
      rw [List.zip_cons_cons, List.map_cons, List.map_congr_left hothers,
        ih hmore (Nat.succ.inj hlength), valueOf, List.lookup_cons_self]
      rfl

/-! ### Tables with the same entries -/

/-- A table is known from its commands, the places of its names and its entries. -/
theorem eq_of_entries {t' : VariableTable} (hcommands : t.commands = t'.commands)
    (hplaces : t.values.places = t'.values.places) (hentries : t.entries = t'.entries) :
    t = t' := by
  obtain ⟨values, commands⟩ := t
  obtain ⟨values', commands'⟩ := t'
  obtain rfl : values = values' := eq_of_places hplaces hentries
  obtain rfl : commands = commands' := hcommands
  rfl

/-- Storing values changes no command and moves no name. -/
theorem places_stored (s : Nat × VariableTable) (pairs : List (String × String)) :
    (stored s pairs).2.commands = s.2.commands ∧
      (stored s pairs).2.values.places = s.2.values.places := by
  induction pairs generalizing s with
  | nil => exact ⟨rfl, rfl⟩
  | cons p more ih =>
    obtain ⟨hcommands, hplaces⟩ := ih (store s p)
    rw [snd_store] at hcommands hplaces
    exact ⟨hcommands, hplaces.trans (places_replace s.2.values p.1 p.2)⟩

/-- What is read for a name is the value of its entry. -/
private theorem read_of_mem (h : t.Kept) {entry : String × String} (hentry : entry ∈ t.entries) :
    t.read entry.1 = entry.2 := by
  obtain ⟨before, after, hsplit⟩ := List.append_of_mem hentry
  have hdistinct := distinct_toList h.coherent
  rw [← entries, hsplit] at hdistinct
  have hbefore : Absent entry.1 before := fun other hother =>
    (List.pairwise_append.mp hdistinct).2.2 other hother entry List.mem_cons_self
  rw [read_eq h, hsplit, lookup_split entry.2 BEq.rfl hbefore]
  rfl

/-- The entries of a table are its names with what is read for them. -/
theorem entries_eq_map_read (h : t.Kept) :
    t.entries = t.names.map fun name => (name, t.read name) := by
  have hentries : ∀ entry ∈ t.entries, (entry.1, t.read entry.1) = entry := by
    intro entry hentry
    rw [read_of_mem h hentry]
  change t.entries = (t.entries.map (·.1)).map fun name => (name, t.read name)
  rw [List.map_map]
  exact ((List.map_congr_left hentries).trans t.entries.map_id).symm

variable {s : Nat × VariableTable} {pairs : List (String × String)}

/-- One value for each name, in any order, makes the entries. -/
theorem entries_stored (h : s.2.Kept) (hlength : s.2.names.length = values.length)
    (hpairs : pairs.Perm (s.2.names.zip values)) :
    (stored s pairs).2.entries = s.2.names.zip values := by
  obtain ⟨hkept, hnames⟩ := kept_stored h pairs
  have hkeys : (s.2.names.zip values).map (·.1) = s.2.names :=
    List.map_fst_zip (Nat.le_of_eq hlength)
  -- both lists have the names in order, so it is enough that each entry is one of the pairs
  refine eq_of_subset (hnames.trans hkeys.symm) (nodup_keys hkept.coherent) fun entry hentry => ?_
  have hname : entry.1 ∈ s.2.names := hnames ▸ List.mem_map_of_mem hentry
  have hpair : entry.1 ∈ pairs.map (·.1) := by
    rw [(hpairs.map _).mem_iff, hkeys]
    exact hname
  have hmem := read_stored_of_mem h hname hpair
  rw [read_of_mem hkept hentry] at hmem
  exact hpairs.mem_iff.mp hmem

/-- Whatever their order, values for all names make the same table. -/
private theorem stored_perm (h : s.2.Kept) (hlength : s.2.names.length = values.length)
    (hpairs : pairs.Perm (s.2.names.zip values)) :
    (stored s pairs).2 = (stored s (s.2.names.zip values)).2 := by
  obtain ⟨hcommands, hplaces⟩ := places_stored s pairs
  obtain ⟨hcommands', hplaces'⟩ := places_stored s (s.2.names.zip values)
  refine eq_of_entries (hcommands.trans hcommands'.symm) (hplaces.trans hplaces'.symm) ?_
  rw [entries_stored h hlength hpairs, entries_stored h hlength (List.Perm.refl _)]

/-! ### Counting -/

/-- Storing a value is counted if the name is registered. -/
private theorem fst_store (h : s.2.Kept) (p : String × String) :
    (store s p).1 = s.1 + if p.1 ∈ s.2.names then 1 else 0 := by
  obtain ⟨count, t⟩ := s
  obtain ⟨name, value⟩ := p
  have hold := fst_replace h.coherent name value
  -- a value is found and replaced just if the name is registered
  have hnone : t.values.toList.lookup name = none ↔ name ∉ t.names :=
    absent_iff_lookup.symm.trans absent_toList_iff
  simp only [store]
  cases hreplace : t.values.replace name value with
  | mk old values =>
    rw [hreplace] at hold
    cases old with
    | some old =>
      have hname : name ∈ t.names :=
        Classical.byContradiction fun hnot => Option.some_ne_none old (hold.trans (hnone.mpr hnot))
      rw [if_pos hname]
    | none =>
      rw [if_neg (hnone.mp hold.symm)]
      rfl

/-- What counts are the values for registered names. -/
theorem fst_stored (h : s.2.Kept) (pairs : List (String × String)) :
    (stored s pairs).1 = s.1 + pairs.countP fun p => p.1 ∈ s.2.names := by
  induction pairs generalizing s with
  | nil => rfl
  | cons p more ih =>
    have hrest := ih (kept_store h p)
    rw [fst_store h, names_store h] at hrest
    rw [List.countP_cons, stored, List.foldl_cons, ← stored, hrest]
    simp only [decide_eq_true_eq]
    omega

/-- Values for registered names are all counted. -/
theorem fst_stored_of_registered (h : s.2.Kept) (hpairs : ∀ pair ∈ pairs, pair.1 ∈ s.2.names) :
    (stored s pairs).1 = s.1 + pairs.length := by
  rw [fst_stored h, List.countP_eq_length.mpr]
  exact fun pair hpair => decide_eq_true (hpairs pair hpair)

/-- Some values are stored, and then more. -/
theorem stored_append (s : Nat × VariableTable) (pairs more : List (String × String)) :
    stored s (pairs ++ more) = stored (stored s pairs) more :=
  List.foldl_append

/-- How many values there were before does not matter to the table. -/
private theorem snd_stored (s : Nat × VariableTable) (pairs : List (String × String)) (n : Nat) :
    (stored s pairs).2 = (stored (n, s.2) pairs).2 := by
  induction pairs generalizing s n with
  | nil => rfl
  | cons p more ih =>
    have hstore : (store (n, s.2) p).2 = (store s p).2 := by rw [snd_store, snd_store]
    calc (stored (store s p) more).2
        = (stored (n, (store s p).2) more).2 := ih _ n
      _ = (stored (n, (store (n, s.2) p).2) more).2 := by rw [hstore]
      _ = (stored (store (n, s.2) p) more).2 := (ih _ n).symm

/-! ### Replies to some names -/

/-- A line for each of some registered names. -/
private theorem assign_unlines (h : t.Kept) (hnames : ∀ name ∈ names, name ∈ t.names)
    (hlength : names.length = values.length) (hlines : ∀ value ∈ values, '\r' ∉ value.toList) :
    t.assign names (Text.unlines values) =
      (.ok names.length, (stored (0, t) (names.zip values)).2) := by
  have hcount : (stored (0, t) (names.zip values)).1 = names.length := by
    have hregistered : ∀ pair ∈ names.zip values, pair.1 ∈ t.names :=
      fun pair hpair => hnames pair.1 (List.of_mem_zip hpair).1
    rw [fst_stored_of_registered (s := (0, t)) h hregistered, List.length_zip, ← hlength,
      Nat.min_self, Nat.zero_add]
  rw [assign]
  simp only [Text.endedLines_unlines hlines]
  rw [if_pos hlength, ← stored, hcount]

/-- The names of a command with their values. -/
def pairsOf (given : List (String × String)) (command : String) : List (String × String) :=
  (Text.words command).map fun name => (name, valueOf given name)

/-- Replies to commands for registered names store the values of one command after the other. -/
private theorem updateChunks_eq (h : t.Kept) {given : List (String × String)}
    {commands : List String}
    (hnames : ∀ command ∈ commands, ∀ name ∈ Text.words command, name ∈ t.names)
    (hgiven : given.map (·.1) = t.names) (hlines : ∀ pair ∈ given, '\r' ∉ pair.2.toList) :
    t.updateChunks (commands.map fun command => (command, replyFor given command)) =
      (commands.map fun command => .ok (Text.words command).length,
        (stored (0, t) (commands.flatMap (pairsOf given))).2) := by
  -- after the first command the table has the same names, so the rest are stored in it the same way
  induction commands generalizing t with
  | nil => rfl
  | cons command more ih =>
    have hcommand := hnames command List.mem_cons_self
    -- the values are among those that are given, so each of them is one line
    have hvalues : ∀ value ∈ (Text.words command).map (valueOf given), '\r' ∉ value.toList := by
      intro value hvalue
      obtain ⟨name, hname, rfl⟩ := List.mem_map.mp hvalue
      obtain ⟨pair, hpair, heq⟩ := List.mem_map.mp (valueOf_mem (hgiven ▸ hcommand name hname))
      exact heq ▸ hlines pair hpair
    have hfirst : t.updateChunk command (replyFor given command) =
        (.ok (Text.words command).length, (stored (0, t) (pairsOf given command)).2) := by
      rw [updateChunk, replyFor, assign_unlines h hcommand (List.length_map _).symm hvalues,
        ← List.map_prod_left_eq_zip]
      rfl
    obtain ⟨hkept, hsame⟩ := kept_stored (s := (0, t)) h (pairsOf given command)
    have hrest := ih hkept (fun c hc => hsame ▸ hnames c (List.mem_cons_of_mem command hc))
      (hgiven.trans hsame.symm)
    rw [List.map_cons, updateChunks]
    simp only [hfirst, hrest]
    rw [List.flatMap_cons, List.map_cons, stored_append,
      snd_stored (stored (0, t) (pairsOf given command)) _ 0]

/-- The commands in their own order give each name its value; another order permutes the pairs. -/
private theorem perm_pairsOf (h : t.Kept) (hwords : ∀ name ∈ t.names, Text.IsWord name)
    (hsame : t.names.length = values.length) {commands : List String}
    (hcommands : commands.Perm t.commands) :
    (commands.flatMap (pairsOf (t.names.zip values))).Perm (t.names.zip values) := by
  refine (hcommands.flatMap_right _).trans (List.Perm.of_eq ?_)
  calc t.commands.flatMap (pairsOf (t.names.zip values))
      = (t.commands.map Text.words).flatten.map
          fun name => (name, valueOf (t.names.zip values) name) := by
        rw [List.map_flatten, List.map_map, List.flatMap_def]
        rfl
    _ = t.names.zip values := by
        rw [flatten_commands h hwords]
        exact map_valueOf (nodup_keys h.coherent) hsame

/-- **Updating chunk by chunk is updating as a whole.** Replies to the commands of a table, in
    whatever order they come, make the table that one reply for all names makes. Each of them stores
    a value for every name of its command, and in the end every name has its value. -/
theorem updateChunks_eq_update (h : t.Built) (hwords : ∀ name ∈ t.names, Text.IsWord name)
    (hlength : values.length = t.size) (hlines : ∀ value ∈ values, '\r' ∉ value.toList)
    {commands : List String} (hcommands : commands.Perm t.commands) :
    t.commands.map Text.words = chunksOf maxNames t.names ∧
    t.updateChunks (commands.map fun command =>
        (command, replyFor (t.names.zip values) command)) =
      (commands.map fun command => .ok (Text.words command).length,
        (t.update (Text.unlines values)).2) ∧
    (t.update (Text.unlines values)).1 = .ok t.size ∧
    (t.update (Text.unlines values)).2.entries = t.names.zip values ∧
    ∀ pair ∈ t.names.zip values, (t.update (Text.unlines values)).2.read pair.1 = pair.2 := by
  have hkept := kept_of_built h
  have hsize : t.names.length = t.size := (size_eq_length_names hkept).symm
  have hsame : t.names.length = values.length := hsize.trans hlength.symm
  have hkeys : (t.names.zip values).map (·.1) = t.names := List.map_fst_zip (Nat.le_of_eq hsame)
  have hregistered : ∀ command ∈ commands, ∀ name ∈ Text.words command, name ∈ t.names := by
    intro command hcommand name hname
    rw [← flatten_commands hkept hwords]
    exact List.mem_flatten_of_mem (List.mem_map_of_mem (hcommands.mem_iff.mp hcommand)) hname
  have hchunks := updateChunks_eq hkept hregistered hkeys
    fun pair hpair => hlines pair.2 (List.of_mem_zip hpair).2
  have hpairs := perm_pairsOf hkept hwords hsame hcommands
  -- the values of one command after the other are those of all names in another order
  have hentries : (stored (0, t) (t.names.zip values)).2.entries = t.names.zip values :=
    entries_stored (s := (0, t)) hkept hsame (List.Perm.refl _)
  rw [update, assign_unlines hkept (fun _ hname => hname) hsame hlines, hsize]
  refine ⟨words_commands hkept hwords, ?_, rfl, hentries, fun pair hpair => ?_⟩
  · rw [hchunks, stored_perm (s := (0, t)) hkept hsame hpairs]
  · rw [← hentries] at hpair
    exact read_of_mem (kept_stored (s := (0, t)) hkept _).1 hpair

/-- One name more than a command asks for. -/
def fortyOne : List String :=
  (0 :: List.range' 1 40).map fun i => "M" ++ toString i

/-- The forty-first name makes a second chunk. -/
theorem chunksOf_fortyOne : chunksOf maxNames fortyOne = [fortyOne.take 40, ["M40"]] := by
  have hlast : (List.range' 1 40).drop 39 = [40] := by decide
  rw [fortyOne, List.map_cons, chunksOf_cons, ← List.map_drop, maxNames, hlast, List.map_singleton,
    chunksOf_cons, List.drop_nil, chunksOf]
  rfl

/-- The chunks have forty names and one. -/
private theorem lengths_chunksOf_fortyOne :
    (chunksOf maxNames fortyOne).map List.length = [40, 1] := by
  rw [chunksOf_fortyOne]
  rfl

/-- The second command is answered before the first one, and the last name gets its value. -/
theorem updateChunks_eq_update_fortyOne :
    let t := empty.addAll fortyOne
    (t.updateChunks (t.commands.reverse.map fun command =>
        (command, replyFor (t.names.zip fortyOne.reverse) command))).1 = [.ok 1, .ok 40] ∧
      (t.update (Text.unlines fortyOne.reverse)).1 = .ok 41 ∧
      (t.update (Text.unlines fortyOne.reverse)).2.read "M40" = "M0" := by
  intro t
  have hbuilt : t.Built := Built.empty.addAll fortyOne
  have hnames : t.names = fortyOne := names_addAll kept_empty (by decide +kernel)
  have hsize : t.size = 41 := by
    rw [size_eq_length_names (kept_of_built hbuilt), hnames]
    simp [fortyOne]
  have hlength : fortyOne.reverse.length = t.size := by simp [hsize, fortyOne]
  obtain ⟨hcommands, hchunks, hwhole, -, hread⟩ := updateChunks_eq_update hbuilt
    (by rw [hnames]; decide +kernel) hlength (by decide +kernel) t.commands.reverse_perm
  refine ⟨?_, hsize ▸ hwhole, hread ("M40", "M0") (by rw [hnames]; decide +kernel)⟩
  -- the counts are the lengths of the chunks, from the last one to the first
  have hlengths : (t.commands.map Text.words).map List.length = [40, 1] := by
    rw [hcommands, hnames, lengths_chunksOf_fortyOne]
  have hresults : t.commands.reverse.map (fun command =>
      (.ok (Text.words command).length : Except Mismatch Nat)) =
      ((t.commands.map Text.words).map List.length).reverse.map .ok := by
    rw [List.map_map, ← List.map_reverse, List.map_map]
    rfl
  rw [hchunks, hresults, hlengths]
  rfl

end PmacPoll.VariableTable
