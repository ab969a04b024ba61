import PmacPoll.Proofs.OrderedMapEntries
import PmacPoll.Proofs.TextPieces
import PmacPoll.VariableTable

/-!
# What a table holds

`Built` is every table that the operations make out of the empty one. In each of them the commands
ask for exactly the names that are registered, in order and at most forty at a time, `Kept`.

Storing lines changes values only. A value after it is the one before it or the line that came for
the name, `read_stored`, and every registered name that got a line holds one that came for it,
`read_stored_of_mem`.
-/

namespace PmacPoll

/-! ### Chunks -/

/-- A list begins with the chunk of its first elements. -/
theorem chunksOf_cons {α : Type} (size : Nat) (a : α) (rest : List α) :
    chunksOf size (a :: rest) =
      (a :: rest.take (size - 1)) :: chunksOf size (rest.drop (size - 1)) := by
  rw [chunksOf]

/-- The chunks make up the list. -/
theorem flatten_chunksOf {α : Type} (size : Nat) (l : List α) :
    (chunksOf size l).flatten = l := by
  match l with
  | [] =>
    rw [chunksOf]
    rfl
  | a :: rest =>
    rw [chunksOf_cons, List.flatten_cons, flatten_chunksOf size (rest.drop (size - 1)),
      List.cons_append, List.take_append_drop]
termination_by l.length
decreasing_by simp only [List.length_drop, List.length_cons]; omega

/-- No chunk has more elements than fit. -/
theorem length_le_of_mem_chunksOf {α : Type} {size : Nat} {l chunk : List α} (hsize : 0 < size)
    (h : chunk ∈ chunksOf size l) : chunk.length ≤ size := by
  induction l using chunksOf.induct size with
  | case1 =>
    rw [chunksOf] at h
    exact nomatch h
  | case2 a rest ih =>
    rw [chunksOf_cons] at h
    -- the chunk is the first one, or one of the rest
    rcases List.mem_cons.mp h with rfl | hmore
    · rw [List.length_cons, List.length_take]
      omega
    · exact ih hmore

/-- There is no empty chunk. -/
theorem ne_nil_of_mem_chunksOf {α : Type} {size : Nat} {l chunk : List α}
    (h : chunk ∈ chunksOf size l) : chunk ≠ [] := by
  induction l using chunksOf.induct size with
  | case1 =>
    rw [chunksOf] at h
    exact nomatch h
  | case2 a rest ih =>
    rw [chunksOf_cons] at h
    rcases List.mem_cons.mp h with rfl | hmore
    · exact List.cons_ne_nil _ _
    · exact ih hmore

/-- Each chunk begins where the ones before it end. -/
theorem getElem?_chunksOf {α : Type} {size : Nat} (hsize : 0 < size) (l : List α) (i : Nat) :
    (chunksOf size l)[i]? =
      if size * i < l.length then some ((l.drop (size * i)).take size) else none := by
  induction l using chunksOf.induct size generalizing i with
  | case1 =>
    rw [chunksOf]
    rfl
  | case2 a rest ih =>
    obtain ⟨fewer, rfl⟩ : ∃ fewer, size = fewer + 1 := ⟨size - 1, by omega⟩
    rw [chunksOf_cons]
    cases i with
    | zero => simp
    | succ i =>
      -- the rest has enough elements for the chunk just if the list has
      have hplace : (fewer + 1) * i < rest.length - fewer ↔
          (fewer + 1) * i + fewer + 1 < rest.length + 1 := by omega
      rw [List.getElem?_cons_succ, ih, Nat.add_sub_cancel, List.drop_drop, List.length_drop,
        List.length_cons, Nat.mul_succ, ← Nat.add_assoc, List.drop_succ_cons,
        Nat.add_comm fewer ((fewer + 1) * i)]
      simp only [hplace]

namespace VariableTable

open Entries OrderedMap

/-- The tables that the operations make. -/
inductive Built : VariableTable → Prop where
  | empty : Built .empty
  | add {t : VariableTable} (name : String) : Built t → Built (t.add name)
  | remove {t : VariableTable} (name : String) : Built t → Built (t.remove name).2
  | update {t : VariableTable} (reply : String) : Built t → Built (t.update reply).2
  | updateChunk {t : VariableTable} (command reply : String) :
      Built t → Built (t.updateChunk command reply).2

/-- The values can be found, and the commands ask for the names. -/
structure Kept (t : VariableTable) : Prop where
  coherent : t.values.Coherent
  commands : t.commands = (chunksOf maxNames t.names).map Text.unwords

variable {t : VariableTable}

/-! ### Reading -/

/-- The size of a table is the number of its names. -/
theorem size_eq_length_names (h : t.Kept) : t.size = t.names.length := by
  rw [size, OrderedMap.size_eq_length h.coherent, names, OrderedMap.keys, List.length_map]

/-- A table has a name if it is among its names. -/
theorem contains_iff (h : t.Kept) {name : String} : t.contains name = true ↔ name ∈ t.names :=
  OrderedMap.contains_iff h.coherent

/-- What is read for a name is its value in the list of entries, and nothing if there is none. -/
theorem read_eq (h : t.Kept) (name : String) :
    t.read name = (t.entries.lookup name).getD "" := by
  rw [read, get?_eq_lookup h.coherent]
  rfl

/-- A name that was not registered has no value. -/
theorem read_of_not_mem (h : t.Kept) {name : String} (hname : name ∉ t.names) :
    t.read name = "" := by
  have hnone : t.entries.lookup name = none := absent_iff_lookup.mp (absent_iff_not_mem.mpr hname)
  rw [read_eq h, hnone]
  rfl

/-! ### Registering and removing -/

/-- A table that is made of a map has the commands of its names. -/
theorem kept_ofValues {values : OrderedMap String String} (h : values.Coherent) :
    (ofValues values).Kept :=
  ⟨h, rfl⟩

/-- So has the empty table. -/
theorem kept_empty : empty.Kept := by
  refine ⟨coherent_empty, ?_⟩
  change [] = (chunksOf maxNames []).map Text.unwords
  rw [chunksOf]
  rfl

/-- Registering a name keeps the commands those of the names. -/
theorem kept_add (h : t.Kept) (name : String) : (t.add name).Kept := by
  unfold add
  split
  · exact h
  · exact kept_ofValues (coherent_insert h.coherent name "")

/-- So does registering some. -/
theorem kept_addAll (h : t.Kept) (names : List String) : (t.addAll names).Kept := by
  induction names generalizing t with
  | nil => exact h
  | cons name more ih => exact ih (kept_add h name)

/-- A new name goes to the end, without a value. -/
theorem entries_add (h : t.Kept) {name : String} (hname : name ∉ t.names) :
    (t.add name).entries = t.entries ++ [(name, "")] := by
  rw [add, if_neg fun hmem => hname ((contains_iff h).mp hmem)]
  exact toList_insert h.coherent "" hname

/-- A new name goes to the end. -/
theorem names_add (h : t.Kept) {name : String} (hname : name ∉ t.names) :
    (t.add name).names = t.names ++ [name] := by
  have hentries := congrArg (List.map (·.1)) (entries_add h hname)
  rw [List.map_append] at hentries
  exact hentries

/-- New names go to the end. -/
theorem names_addAll (h : t.Kept) {names : List String} (hnodup : (t.names ++ names).Nodup) :
    (t.addAll names).names = t.names ++ names := by
  induction names generalizing t with
  | nil => exact (List.append_nil _).symm
  | cons name more ih =>
    have hname : name ∉ t.names := fun hmem =>
      (List.nodup_append.mp hnodup).2.2 name hmem name List.mem_cons_self rfl
    have hnames := names_add h hname
    rw [List.append_cons] at hnodup ⊢
    rw [← hnames] at hnodup ⊢
    exact ih (kept_add h name) hnodup

/-- Names that are registered one after another give a table that was built. -/
theorem Built.addAll (h : t.Built) (names : List String) : (t.addAll names).Built := by
  induction names generalizing t with
  | nil => exact h
  | cons name more ih => exact ih (h.add name)

/-- A table with one name. -/
theorem add_empty (name : String) :
    (empty.add name).names = [name] ∧ (empty.add name).commands = [name] := by
  have hnames : (empty.add name).names = [name] := names_add kept_empty List.not_mem_nil
  refine ⟨hnames, ?_⟩
  rw [(kept_add kept_empty name).commands, hnames, chunksOf_cons, List.take_nil, List.drop_nil,
    chunksOf]
  rfl

/-- A table with two names. -/
theorem addAll_pair {name other : String} (hne : name ≠ other) :
    (empty.addAll [name, other]).names = [name, other] ∧
      (empty.addAll [name, other]).commands = [name ++ " " ++ other] := by
  have hnames : (empty.addAll [name, other]).names = [name, other] := by
    refine names_addAll kept_empty ?_
    change [name, other].Nodup
    simpa using hne
  refine ⟨hnames, ?_⟩
  rw [(kept_addAll kept_empty _).commands, hnames, chunksOf_cons,
    List.drop_of_length_le (by simp [maxNames]), chunksOf]
  rfl

/-- Removing a name makes the commands anew, and if it was not there they are the same as before. -/
theorem kept_remove (h : t.Kept) (name : String) : (t.remove name).2.Kept := by
  have hcoherent := coherent_erase h.coherent name
  have hlist := toList_erase h.coherent name
  have hfst := fst_erase h.coherent name
  unfold remove
  cases herase : t.values.erase name with
  | mk old values =>
    rw [herase] at hcoherent hlist hfst
    cases old with
    | some value => exact kept_ofValues hcoherent
    | none =>
      -- No key goes, so the commands still ask for all names.
      have hsame : values.toList = t.values.toList := by
        rw [hlist, List.filter_eq_self]
        intro entry hentry
        rw [Bool.not_eq_true', beq_eq_false_iff_ne]
        intro heq
        have hnone := List.lookup_eq_none_iff.mp hfst.symm entry hentry
        rw [heq] at hnone
        exact absurd hnone (by simp)
      refine ⟨hcoherent, ?_⟩
      rw [h.commands]
      change _ = (chunksOf maxNames (values.toList.map (·.1))).map Text.unwords
      rw [hsame]
      rfl

/-! ### Storing -/

/-- Storing a value overwrites it in the map, if it is there, and nothing else. -/
theorem snd_store (s : Nat × VariableTable) (p : String × String) :
    (store s p).2 = { s.2 with values := (s.2.values.replace p.1 p.2).2 } := by
  obtain ⟨count, t⟩ := s
  obtain ⟨name, value⟩ := p
  simp only [store, replace]
  cases t.values.locate? name <;> rfl

/-- Storing a line for a name overwrites its value. -/
theorem entries_store {s : Nat × VariableTable} (h : s.2.Kept) (p : String × String) :
    (store s p).2.entries = overwrite p.1 p.2 s.2.entries := by
  rw [snd_store]
  exact toList_replace h.coherent p.1 p.2

/-- The names stay as they are. -/
theorem names_store {s : Nat × VariableTable} (h : s.2.Kept) (p : String × String) :
    (store s p).2.names = s.2.names := by
  change (store s p).2.entries.map (·.1) = _
  rw [entries_store h, keys_overwrite]
  rfl

/-- Storing changes no command. -/
theorem kept_store {s : Nat × VariableTable} (h : s.2.Kept) (p : String × String) :
    (store s p).2.Kept := by
  refine ⟨?_, ?_⟩
  · rw [snd_store]
    exact coherent_replace h.coherent p.1 p.2
  · rw [names_store h, snd_store]
    exact h.commands

/-- A registered name gets the line that is stored for it. -/
theorem read_store_self {s : Nat × VariableTable} (h : s.2.Kept) {p : String × String}
    (hname : p.1 ∈ s.2.names) : (store s p).2.read p.1 = p.2 := by
  have hlookup : (overwrite p.1 p.2 s.2.entries).lookup p.1 = some p.2 :=
    lookup_overwrite_self p.2 hname
  rw [read_eq (kept_store h p), entries_store h, hlookup]
  rfl

/-- A value is changed by the line that is stored for its name only. -/
private theorem read_store {s : Nat × VariableTable} (h : s.2.Kept) (p : String × String)
    (name : String) : (store s p).2.read name = s.2.read name ∨
      (name, (store s p).2.read name) = p := by
  by_cases hname : name = p.1
  · by_cases hmem : p.1 ∈ s.2.names
    · rw [hname, read_store_self h hmem]
      exact Or.inr rfl
    · have hsame : overwrite p.1 p.2 s.2.entries = s.2.entries := overwrite_of_not_mem p.2 hmem
      rw [read_eq (kept_store h p), entries_store h, hsame, ← read_eq h]
      exact Or.inl rfl
  · rw [read_eq (kept_store h p), entries_store h, lookup_overwrite_of_ne p.2 hname, ← read_eq h]
    exact Or.inl rfl

/-- What some values come to when they are stored in order. -/
def stored (s : Nat × VariableTable) (pairs : List (String × String)) : Nat × VariableTable :=
  pairs.foldl store s

/-- Storing lines one after another keeps commands and names. -/
theorem kept_stored {s : Nat × VariableTable} (h : s.2.Kept) (pairs : List (String × String)) :
    (stored s pairs).2.Kept ∧ (stored s pairs).2.names = s.2.names := by
  induction pairs generalizing s with
  | nil => exact ⟨h, rfl⟩
  | cons p more ih =>
    obtain ⟨hkept, hnames⟩ := ih (kept_store h p)
    exact ⟨hkept, hnames.trans (names_store h p)⟩

/-- A value after some are stored is the one before, or one of them that came for its name. -/
theorem read_stored {s : Nat × VariableTable} (h : s.2.Kept) (pairs : List (String × String))
    (name : String) :
    (stored s pairs).2.read name = s.2.read name ∨
      (name, (stored s pairs).2.read name) ∈ pairs := by
  induction pairs generalizing s with
  | nil => exact Or.inl rfl
  | cons p more ih =>
    -- the value is what the later pairs left, or one of theirs
    rcases ih (kept_store h p) with hsame | hmem
    · change (stored (store s p) more).2.read name = _ ∨ _
      rcases read_store h p name with hbefore | hhere
      · exact Or.inl (hsame.trans hbefore)
      · rw [← hsame] at hhere
        exact Or.inr (List.mem_cons.mpr (Or.inl hhere))
    · exact Or.inr (List.mem_cons_of_mem p hmem)

/-- A registered name for which a value came holds one that came for it. -/
theorem read_stored_of_mem {s : Nat × VariableTable} (h : s.2.Kept)
    {pairs : List (String × String)} {name : String} (hname : name ∈ s.2.names)
    (hpair : name ∈ pairs.map (·.1)) : (name, (stored s pairs).2.read name) ∈ pairs := by
  induction pairs generalizing s with
  | nil => exact nomatch hpair
  | cons p more ih =>
    -- The last value for the name stays.
    by_cases hmore : name ∈ more.map (·.1)
    · have hmem := ih (kept_store h p) (by rw [names_store h]; exact hname) hmore
      exact List.mem_cons_of_mem p hmem
    · obtain rfl : name = p.1 := (List.mem_cons.mp hpair).resolve_right hmore
      rcases read_stored (kept_store h p) more p.1 with hsame | hmem
      · change (p.1, (stored (store s p) more).2.read p.1) ∈ _
        rw [hsame, read_store_self h hname]
        exact List.mem_cons_self ..
      · exact List.mem_cons_of_mem p hmem

/-! ### Lines of a reply -/

/-- Storing the lines of a reply changes no command. -/
theorem kept_assign (h : t.Kept) (names : List String) (reply : String) :
    (t.assign names reply).2.Kept :=
  (kept_stored (s := (0, t)) h _).1

/-- The operations keep what they rely on. -/
theorem kept_of_built (h : t.Built) : t.Kept := by
  induction h with
  | empty => exact kept_empty
  | add name _ ih => exact kept_add ih name
  | remove name _ ih => exact kept_remove ih name
  | update reply _ ih => exact kept_assign ih _ reply
  | updateChunk command reply _ ih => exact kept_assign ih _ reply

/-- The words of a command are the names of its chunk. -/
theorem words_unwords (hwords : ∀ name ∈ t.names, Text.IsWord name) {chunk : List String}
    (hchunk : chunk ∈ chunksOf maxNames t.names) : Text.words (Text.unwords chunk) = chunk := by
  refine Text.words_unwords fun name hname => hwords name ?_
  rw [← flatten_chunksOf maxNames t.names]
  exact List.mem_flatten_of_mem hchunk hname

/-- The words of the commands are the names in chunks. -/
theorem words_commands (h : t.Kept) (hwords : ∀ name ∈ t.names, Text.IsWord name) :
    t.commands.map Text.words = chunksOf maxNames t.names := by
  rw [h.commands, List.map_map]
  conv => rhs; rw [← List.map_id (chunksOf maxNames t.names)]
  exact List.map_congr_left fun chunk hchunk => words_unwords hwords hchunk

/-- There is a command just if there is a name. -/
theorem commands_eq_nil_iff (h : t.Kept) : t.commands = [] ↔ t.names = [] := by
  rw [h.commands, List.map_eq_nil_iff]
  refine ⟨fun hnone => ?_, fun hnone => ?_⟩
  · rw [← flatten_chunksOf maxNames t.names, hnone]
    rfl
  · rw [hnone, chunksOf]

/-- The words of the commands are those of the names. -/
theorem flatMap_words_commands (h : t.Kept) :
    t.commands.flatMap Text.words = t.names.flatMap Text.words := by
  rw [h.commands, List.flatMap_map]
  calc (chunksOf maxNames t.names).flatMap (fun chunk => Text.words (Text.unwords chunk))
      = (chunksOf maxNames t.names).flatMap (fun chunk => chunk.flatMap Text.words) := by
        simp only [Text.words_unwords_eq_flatMap]
    _ = (chunksOf maxNames t.names).flatten.flatMap Text.words := by
        rw [← List.flatMap_id, List.flatMap_assoc]
        rfl
    _ = t.names.flatMap Text.words := by rw [flatten_chunksOf]

/-- The words of the commands are the names, each in its place. -/
theorem flatten_commands (h : t.Kept) (hwords : ∀ name ∈ t.names, Text.IsWord name) :
    (t.commands.map Text.words).flatten = t.names := by
  rw [words_commands h hwords, flatten_chunksOf]

end VariableTable

end PmacPoll
