import PmacPoll.Proofs.OrderedMapOperations

/-!
# Gaps in an ordered map

A removal leaves a gap, and only removals look whether there are too many of them. `Tidy` is what
makes that enough: the gaps are counted as they come, and they are at most two thirds of the slots.
Each operation keeps it, `tidy_run`, and so does every run of operations, `tidy_runAll`.

So a map has at most two gaps for each of its entries, and whatever position the index gives is
that of an entry, `runAll_orderly`.
-/

namespace PmacPoll.OrderedMap

open Entries

variable {α β : Type} [BEq α] [Hashable α] {m m' : OrderedMap α β}

/-- The number of slots without an entry. -/
def gaps (m : OrderedMap α β) : Nat :=
  m.slots.toList.countP Option.isNone

/-- The index finds the entries, and the gaps are counted and do not prevail. -/
structure Tidy (m : OrderedMap α β) : Prop where
  coherent : m.Coherent
  counted : m.vacant = m.gaps
  few : m.vacant * 3 ≤ m.slots.size * 2

/-- How the slots, the index and the count of gaps of a map hang together. -/
structure Orderly (m : OrderedMap α β) : Prop where
  /-- The index has a key at a position just if the slot there holds an entry of the key. -/
  indexed : ∀ (key : α) (i : Nat), m.index[key]? = some i ↔
    ∃ k value, m.slots[i]? = some (some (k, value)) ∧ (k == key) = true
  /-- No key is in two slots. -/
  once : ∀ (i j : Nat) (k k' : α) (value value' : β), m.slots[i]? = some (some (k, value)) →
    m.slots[j]? = some (some (k', value')) → (k == k') = true → i = j
  counted : m.vacant = m.gaps
  vacant_le : m.vacant ≤ 2 * m.size
  slots_le : m.slots.size ≤ 3 * m.size
  empty : m.isEmpty = true → m.slots = #[]
  /-- A position in the index is in range, and its slot is not vacant. -/
  inRange : ∀ (key : α) (i : Nat), m.index[key]? = some i →
    ∃ h : i < m.slots.size, m.slots[i].isSome = true
  /-- A key that is in the index is never appended: its entry is overwritten where it is. -/
  overwritten : ∀ (key : α) (i : Nat), m.index[key]? = some i →
    ∃ k old, m.slots[i]? = some (some (k, old)) ∧ ∀ value, m.insert key value =
      (some old, { m with slots := m.slots.setIfInBounds i (some (k, value)) })

/-! ### Counting slots -/

/-- Every slot is a gap or holds an entry. -/
theorem size_slots (m : OrderedMap α β) : m.slots.size = m.gaps + m.toList.length := by
  rw [toList, List.length_filterMap_eq_countP, ← Array.length_toList,
    List.length_eq_countP_add_countP Option.isNone, gaps]
  refine congrArg (_ + ·) (List.countP_congr fun slot _ => ?_)
  cases slot <;> simp

/-- In which slots there are gaps can be told without the values. -/
private theorem gaps_eq_places (m : OrderedMap α β) : m.gaps = m.places.1.countP Option.isNone := by
  rw [gaps, places, List.countP_map]
  exact List.countP_congr fun slot _ => by simp

/-- Entries that were moved together have no gaps. -/
private theorem gaps_compact (m : OrderedMap α β) : m.compact.gaps = 0 := by
  simp only [gaps, compact, List.countP_map, List.countP_eq_zero]
  simp

/-- A map with a gap in place of an entry has one gap more. -/
private theorem gaps_gapped {before after : List (Option (α × β))} {entry : α × β}
    (hsplit : m.slots.toList = before ++ some entry :: after) (index : Std.HashMap α Nat)
    (vacant : Nat) :
    gaps ⟨m.slots.setIfInBounds before.length none, index, vacant⟩ = m.gaps + 1 := by
  rw [gaps, gaps, Array.toList_setIfInBounds, hsplit,
    List.set_append_right before.length _ (Nat.le_refl _), Nat.sub_self, List.set_cons_zero,
    List.countP_append, List.countP_append, List.countP_cons_of_pos rfl,
    List.countP_cons_of_neg (by simp), Nat.add_assoc]

/-! ### One operation -/

/-- Only removing and appending keys has a part in the gaps. -/
theorem tidy_of_places (hm : m.Tidy) (hcoherent : m'.Coherent) (h : m'.places = m.places) :
    m'.Tidy := by
  have hvacant : m'.vacant = m.vacant := congrArg (·.2.2) h
  have hsize : m'.slots.size = m.slots.size := by
    simpa [places] using congrArg (·.1.length) h
  refine ⟨hcoherent, ?_, ?_⟩
  · rw [hvacant, hm.counted, gaps_eq_places, gaps_eq_places, h]
  · rw [hvacant, hsize]
    exact hm.few

/-- The empty map has no gaps. -/
theorem tidy_empty : (empty : OrderedMap α β).Tidy :=
  ⟨coherent_empty, rfl, Nat.le_refl 0⟩

/-- A new map has no gaps. -/
theorem tidy_fresh (capacity : Option Nat) : (fresh capacity : OrderedMap α β).Tidy := by
  refine ⟨coherent_fresh capacity, ?_, ?_⟩
  · cases capacity <;> simp [fresh, empty, emptyWithCapacity, gaps]
  · cases capacity <;> exact Nat.zero_le _

/-- Overwriting all values moves no key. -/
private theorem places_mapValues (m : OrderedMap α β) (f : α → β → β) :
    (m.mapValues f).places = m.places := by
  simp only [places, mapValues, Array.toList_map, List.map_map]
  refine congrArg (·, _) (List.map_congr_left fun slot _ => ?_)
  cases slot <;> rfl

variable [EquivBEq α] [LawfulHashable α]

/-- Inserting a key makes no gap. -/
theorem tidy_insert (hm : m.Tidy) (key : α) (value : β) : (m.insert key value).2.Tidy := by
  have hcoherent := coherent_insert hm.coherent key value
  cases hlookup : m.toList.lookup key with
  | some old =>
    rw [insert_of_lookup hm.coherent value hlookup] at hcoherent ⊢
    exact tidy_of_places hm hcoherent (places_replace m key value)
  | none =>
    have habsent := absent_iff_lookup.mpr hlookup
    have hcounted := hm.counted
    have hfew := hm.few
    -- the new slot is taken, so there are as many gaps among more slots
    simp only [insert, locate?_of_absent hm.coherent habsent] at hcoherent ⊢
    refine ⟨hcoherent, ?_, ?_⟩
    · simpa [gaps] using hcounted
    · simp only [Array.size_push]
      omega

/-- Removing a key makes one gap, or none are left because there are too many. -/
theorem tidy_erase (hm : m.Tidy) (key : α) : (m.erase key).2.Tidy := by
  have hcoherent := coherent_erase hm.coherent key
  rcases hm.coherent.locate? key with ⟨-, hnone, -⟩ |
    ⟨before, k, old, after, -, hindex, hslot, -, hsplit, -⟩
  · simp only [erase, hnone]
    exact hm
  · have hgaps := gaps_gapped hsplit (m.index.erase key) (m.vacant + 1)
    simp only [erase, hindex, hslot] at hcoherent ⊢
    split
    · next hprevail =>
      rw [if_pos hprevail] at hcoherent
      exact ⟨hcoherent, (gaps_compact _).symm, Nat.zero_le _⟩
    · next hfew =>
      rw [if_neg hfew] at hcoherent
      refine ⟨hcoherent, ?_, Nat.le_of_not_lt hfew⟩
      -- the slot of the key was not a gap before
      rw [hgaps, ← hm.counted]

/-- Every operation keeps a map tidy. -/
theorem tidy_run (hm : m.Tidy) (op : Operation α β) : (op.run m).2.Tidy := by
  cases op with
  | insert key value => exact tidy_insert hm key value
  | replace key value =>
    exact tidy_of_places hm (coherent_replace hm.coherent key value) (places_replace m key value)
  | erase key => exact tidy_erase hm key
  | mapValues f =>
    exact tidy_of_places hm (coherent_mapValues hm.coherent f) (places_mapValues m f)
  | clear => exact tidy_empty
  | get? key | contains key => exact hm

/-! ### Runs -/

/-- Every run of operations keeps a map tidy. -/
theorem tidy_runAll (hm : m.Tidy) (ops : List (Operation α β)) :
    (runAll Operation.run ops m).2.Tidy := by
  induction ops generalizing m with
  | nil => exact hm
  | cons op more ih => exact ih (tidy_run hm op)

/-- The gaps of a tidy map are at most two for each entry. -/
private theorem Tidy.vacant_le (hm : m.Tidy) :
    m.vacant ≤ 2 * m.size ∧ m.slots.size = m.vacant + m.size := by
  have hsize := size_slots m
  rw [← hm.counted, ← size_eq_length hm.coherent] at hsize
  have hfew := hm.few
  omega

/-- A tidy map is orderly. -/
private theorem Tidy.orderly (hm : m.Tidy) : m.Orderly := by
  obtain ⟨hvacant, hsize⟩ := hm.vacant_le
  have hslot : ∀ (i : Nat) (entry : α × β),
      m.slot? i = some entry ↔ m.slots[i]? = some (some entry) :=
    fun i entry => Option.join_eq_some_iff
  have hfound : ∀ (key : α) (i : Nat), m.index[key]? = some i →
      ∃ k value, m.slots[i]? = some (some (k, value)) ∧ m.locate? key = some (i, k, value) := by
    intro key i hi
    obtain ⟨⟨k, value⟩, hentry, -⟩ := (hm.coherent key i).mp hi
    refine ⟨k, value, (hslot i _).mp hentry, ?_⟩
    simp only [locate?, hi, hentry, Option.map_some]
  refine ⟨fun key i => ?_, fun i j k k' value value' hi hj hsame => ?_, hm.counted, hvacant,
    by omega, fun hempty => ?_, fun key i hi => ?_, fun key i hi => ?_⟩
  · rw [hm.coherent key i]
    simp only [hslot, Prod.exists]
  · -- two slots with the same key would both be the one in the index
    exact hm.coherent.slot_unique ((hslot i _).mpr hi) ((hslot j _).mpr hj) hsame
  · have hnone : m.size = 0 := by
      rw [size, ← beq_iff_eq, ← Std.HashMap.isEmpty_eq_size_eq_zero]
      exact hempty
    exact Array.eq_empty_of_size_eq_zero (by omega)
  · obtain ⟨k, value, hget, -⟩ := hfound key i hi
    obtain ⟨hlt, hget⟩ := Array.getElem?_eq_some_iff.mp hget
    exact ⟨hlt, by rw [hget]; rfl⟩
  · -- where a key is found, inserting it overwrites the value there
    obtain ⟨k, old, hget, hlocate⟩ := hfound key i hi
    refine ⟨k, old, hget, fun value => ?_⟩
    simp only [insert, hlocate]

/-- **Slots and index agree, and gaps are few.** Whatever is done with a map that had no entries,
    its index has exactly the keys of the entries, each at the position of its one slot, so that no
    position leads to a gap or out of range and no key that is there is appended. There are at most
    two gaps for each entry, and a map without entries has no slots. -/
theorem runAll_orderly (capacity : Option Nat) (ops : List (Operation α β)) :
    (runAll Operation.run ops (fresh capacity)).2.Orderly :=
  (tidy_runAll (tidy_fresh capacity) ops).orderly

/-- Two of three keys are removed, which are as many gaps as one entry may have. -/
theorem runAll_orderly_twoGaps :
    let m := (runAll Operation.run
      [.insert 1 10, .insert 2 20, .insert 3 30, .erase 1, .replace 3 31, .erase 2]
      (fresh (some 3) : OrderedMap Nat Nat)).2
    m.Orderly ∧ m.vacant = 2 ∧ m.size = 1 ∧ m.slots = #[none, none, some (3, 31)] := by
  intro m
  refine ⟨runAll_orderly (some 3) _, ?_⟩
  simp [m, runAll, Operation.run, insert, replace, erase, locate?, slot?, fresh,
    emptyWithCapacity, size, Std.HashMap.getElem_insert, Std.HashMap.getElem_erase,
    Std.HashMap.size_insert, Std.HashMap.size_erase]

end PmacPoll.OrderedMap
