import PmacPoll.Proofs.ChunkedUpdates

/-!
# Commands that are never stale

The commands of a table are made anew only when a name comes or goes. That is enough: after any
edits they ask for the names that were registered and not removed since, in the order of their
registration, forty in each command but the last, `edited_current`.

`registered` tells these names from the edits alone. One edit does to the names of a table what it
does to such a list, `names_apply`, and by that the names after all of them are known.
-/

namespace PmacPoll.VariableTable

open Entries OrderedMap

/-- What is done with a table. -/
inductive Edit where
  | add (name : String)
  | remove (name : String)
  | update (reply : String)
  | updateChunk (command reply : String)
  deriving DecidableEq

/-- The table after an edit. -/
def Edit.apply : Edit → VariableTable → VariableTable
  | add name, t => t.add name
  | remove name, t => (t.remove name).2
  | update reply, t => (t.update reply).2
  | updateChunk command reply, t => (t.updateChunk command reply).2

/-- The names that are registered after an edit, in the order of their registration. -/
def Edit.register : Edit → List String → List String
  | add name, names => if name ∈ names then names else names ++ [name]
  | remove name, names => names.filter (· != name)
  | update _, names => names
  | updateChunk _ _, names => names

/-- The table after some edits of the empty one. -/
def edited (edits : List Edit) : VariableTable :=
  edits.foldl (fun t edit => edit.apply t) .empty

/-- The names that are registered after some edits. -/
def registered (edits : List Edit) : List String :=
  edits.foldl (fun names edit => edit.register names) []

/-- A name that comes again is the last one. -/
example : registered [.add "A", .add "B", .remove "A", .update "1\r", .add "A", .add "B"] =
    ["B", "A"] := by decide

/-- What stands in a list from one position to another. -/
def between {α : Type} (first last : Nat) (l : List α) : List α :=
  (l.take (last + 1)).drop first

/-- The commands of a table ask for some names, in their order and forty at a time. -/
structure AsksFor (t : VariableTable) (names : List String) : Prop where
  order : t.names = names
  size : t.size = names.length
  joined : Text.unwords t.commands = t.command
  count : t.commands.length = (t.size + 39) / 40
  command : ∀ i < (t.size + 39) / 40, t.commands[i]? =
    some (Text.unwords (between (40 * i) (min (40 * i + 39) (t.size - 1)) names))

/-- No edit changes the commands that adds no new name and removes none. -/
structure Steady (t : VariableTable) : Prop where
  add : ∀ name ∈ t.names, t.add name = t
  remove : ∀ name, name ∉ t.names → (t.remove name).2.commands = t.commands
  update : ∀ reply, (t.update reply).2.commands = t.commands
  updateChunk : ∀ command reply, (t.updateChunk command reply).2.commands = t.commands

variable {t : VariableTable}

/-! ### One edit -/

/-- A name goes with its value. -/
private theorem values_remove (t : VariableTable) (name : String) :
    (t.remove name).2.values = (t.values.erase name).2 := by
  rw [remove]
  split
  · next h => rw [h]; rfl
  · next h => rw [h]

/-- A name that is removed is the only one that goes. -/
private theorem names_remove (h : t.Kept) (name : String) :
    (t.remove name).2.names = t.names.filter (· != name) := by
  rw [names, values_remove, keys, toList_erase h.coherent, names, keys, List.filter_map]
  rfl

/-- A reply leaves the names. -/
private theorem names_assign (h : t.Kept) (asked : List String) (reply : String) :
    (t.assign asked reply).2.names = t.names :=
  (kept_stored (s := (0, t)) h _).2

/-- A name that is there is not added again. -/
theorem add_of_mem (h : t.Kept) {name : String} (hname : name ∈ t.names) : t.add name = t := by
  rw [add, if_pos ((contains_iff h).mpr hname)]

/-- Every edit keeps the commands current. -/
theorem kept_apply (h : t.Kept) (edit : Edit) : (edit.apply t).Kept := by
  cases edit with
  | add name => exact kept_add h name
  | remove name => exact kept_remove h name
  | update reply => exact kept_assign h _ reply
  | updateChunk command reply => exact kept_assign h _ reply

/-- An edit does to the names what it does to a list. -/
theorem names_apply (h : t.Kept) (edit : Edit) :
    (edit.apply t).names = edit.register t.names := by
  cases edit with
  | add name =>
    rw [Edit.register]
    split
    · next hmem => exact congrArg names (add_of_mem h hmem)
    · next hnew => exact names_add h hnew
  | remove name => exact names_remove h name
  | update reply => exact names_assign h _ reply
  | updateChunk command reply => exact names_assign h _ reply

/-- A table whose commands are current makes them anew only when a name comes or goes. -/
private theorem steady_of_kept (h : t.Kept) : t.Steady := by
  refine ⟨fun name => add_of_mem h, fun name hname => ?_, fun reply => ?_,
    fun command reply => ?_⟩
  · -- a name that is not there is not found, and nothing is done
    have hnone : (t.values.erase name).1 = none := by
      rw [fst_erase h.coherent]
      exact absent_iff_lookup.mp (absent_iff_not_mem.mpr hname)
    rw [remove]
    split
    · next hsome => rw [hsome] at hnone; exact nomatch hnone
    · rfl
  · exact (places_stored (0, t) _).1
  · exact (places_stored (0, t) _).1

/-! ### Some edits -/

/-- Some edits are made, and then more. -/
private theorem edited_append (edits more : List Edit) :
    edited (edits ++ more) = more.foldl (fun t edit => edit.apply t) (edited edits) :=
  List.foldl_append

/-- Edits one after another keep the commands current, and do to the names what they do to a
    list. -/
theorem kept_foldl (h : t.Kept) (edits : List Edit) :
    (edits.foldl (fun t edit => edit.apply t) t).Kept ∧
      (edits.foldl (fun t edit => edit.apply t) t).names =
        edits.foldl (fun names edit => edit.register names) t.names := by
  induction edits generalizing t with
  | nil => exact ⟨h, rfl⟩
  | cons edit more ih =>
    rw [List.foldl_cons, List.foldl_cons, ← names_apply h]
    exact ih (kept_apply h edit)

/-- A name that is not there stays away unless it is added. -/
private theorem not_mem_foldl_register {names : List String} {name : String} (hname : name ∉ names)
    {edits : List Edit} (hedits : .add name ∉ edits) :
    name ∉ edits.foldl (fun names edit => edit.register names) names := by
  induction edits generalizing names with
  | nil => exact hname
  | cons edit more ih =>
    rw [List.mem_cons, not_or] at hedits
    refine ih ?_ hedits.2
    -- only an addition of this very name could bring it in
    cases edit with
    | add other =>
      have hne : name ≠ other := fun heq => hedits.1 (heq ▸ rfl)
      simp only [Edit.register]
      split <;> simp [hname, hne]
    | remove other => exact fun hmem => hname (List.mem_filter.mp hmem).1
    | update | updateChunk => exact hname

/-! ### The commands -/

/-- The names of a command are forty of the list, or what is left of it. -/
private theorem between_eq {α : Type} (l : List α) (i : Nat) (h : 40 * i < l.length) :
    between (40 * i) (min (40 * i + 39) (l.length - 1)) l = (l.drop (40 * i)).take 40 := by
  rw [between, List.drop_take, List.take_eq_take_iff, List.length_drop]
  omega

/-- A table whose commands are current asks for its names. -/
private theorem asksFor_of_kept (h : t.Kept) : t.AsksFor t.names := by
  have hsize := size_eq_length_names h
  have hget : ∀ i, t.commands[i]? =
      -- the command at a place is made of the names there, if there are any
      if 40 * i < t.size then some (Text.unwords ((t.names.drop (40 * i)).take 40)) else none := by
    intro i
    rw [h.commands, List.getElem?_map, maxNames, getElem?_chunksOf (by decide), hsize]
    split <;> rfl
  refine ⟨rfl, hsize, ?_, ?_, fun i hi => ?_⟩
  · rw [h.commands, Text.unwords_map_unwords fun chunk => ne_nil_of_mem_chunksOf,
      flatten_chunksOf]
    rfl
  · -- a command is there just if there is a name for it
    have hlength : ∀ i, t.commands.length ≤ i ↔ t.size ≤ 40 * i := by
      intro i
      rw [← List.getElem?_eq_none_iff, hget]
      split <;> simp <;> omega
    have hle := (hlength ((t.size + 39) / 40)).mpr (by omega)
    have hge := (hlength t.commands.length).mp (Nat.le_refl _)
    omega
  · have hlt : 40 * i < t.size := by omega
    rw [hget, if_pos hlt, hsize, between_eq t.names i (hsize ▸ hlt)]

/-- **Commands are never stale.** After any edits the commands of a table, one after another, are
    the command for all names, and each asks for the forty names that are next in the order of
    registration. They stay as they are when no name comes or goes. A name that is added while it is
    there changes nothing; one that was removed, and is added after whatever was done in between,
    comes last and has no value. -/
theorem edited_current (edits : List Edit) :
    (edited edits).AsksFor (registered edits) ∧ (edited edits).Steady ∧
    ∀ (name : String) (more : List Edit), .add name ∉ more →
      (edited (edits ++ .remove name :: more ++ [.add name])).entries =
        (edited (edits ++ .remove name :: more)).entries ++ [(name, "")] := by
  obtain ⟨hkept, hnames⟩ := kept_foldl kept_empty edits
  refine ⟨?_, steady_of_kept hkept, fun name more hmore => ?_⟩
  · have hasks := asksFor_of_kept hkept
    rw [hnames] at hasks
    exact hasks
  · -- the name is not there before it comes again, so its entry is the last
    obtain ⟨hlater, hlaterNames⟩ := kept_foldl kept_empty (edits ++ .remove name :: more)
    rw [edited_append]
    refine entries_add hlater ?_
    rw [hlaterNames, List.foldl_append, List.foldl_cons]
    refine not_mem_foldl_register ?_ hmore
    simp [Edit.register]

/-- A name is removed, a reply is stored for the other one, and the name is added again. -/
theorem edited_current_comeAgain :
    let edits := [.add "P1", .add "P2"]
    let later := edits ++ [.remove "P1", .update "7\r"]
    (edited edits).commands[0]? = some "P1 P2" ∧ (edited later).commands[0]? = some "P2" ∧
      (edited (later ++ [.add "P1"])).entries = (edited later).entries ++ [("P1", "")] := by
  intro edits later
  obtain ⟨hasks, -, hagain⟩ := edited_current edits
  obtain ⟨hasksLater, -, -⟩ := edited_current later
  have hsize : (edited edits).size = 2 := hasks.size
  have hsizeLater : (edited later).size = 1 := hasksLater.size
  refine ⟨?_, ?_, hagain "P1" [.update "7\r"] (by decide)⟩
  · rw [hasks.command 0 (by rw [hsize]; decide), hsize]
    rfl
  · rw [hasksLater.command 0 (by rw [hsizeLater]; decide), hsizeLater]
    rfl

end PmacPoll.VariableTable
