import PmacPoll.OrderedMap

/-!
# An ordered map is its list of entries

`Coherent` is what the index owes to the slots: it has a key, at a position, exactly if the slot at
that position holds an entry of the key. Every operation keeps it.

Each operation on a coherent map is one on its list of entries: `get?_eq_lookup`, `toList_replace`,
`toList_insert`, `toList_erase` and `toList_mapValues`. Gaps, and the moving together of entries,
are not seen there.

Two keys are the same if `==` says so, and an entry keeps the key that it came with. Where `==` says
so of equal keys only, a map has a key if it is among `keys`; the last section is about these.
-/

namespace PmacPoll

variable {α β : Type} [BEq α]

/-! ### Lists of entries -/

namespace Entries

/-- The entries with another value for a key. -/
def overwrite (key : α) (value : β) (entries : List (α × β)) : List (α × β) :=
  entries.map fun entry => if entry.1 == key then (entry.1, value) else entry

/-- No entry has the key. -/
def Absent (key : α) (entries : List (α × β)) : Prop :=
  ∀ entry ∈ entries, (entry.1 == key) = false

variable {key k : α} {entries before after : List (α × β)}

/-- Overwriting moves no key. -/
@[simp] theorem keys_overwrite (key : α) (value : β) (entries : List (α × β)) :
    (overwrite key value entries).map (·.1) = entries.map (·.1) := by
  rw [overwrite, List.map_map]
  refine List.map_congr_left fun entry _ => ?_
  simp only [Function.comp_apply]
  split <;> rfl

/-- A key that is absent has no value to be overwritten. -/
private theorem overwrite_of_absent (value : β) (h : Absent key entries) :
    overwrite key value entries = entries := by
  rw [overwrite]
  conv => rhs; rw [← List.map_id entries]
  refine List.map_congr_left fun entry hentry => ?_
  rw [if_neg (by rw [h entry hentry]; exact Bool.false_ne_true), id]

/-- Overwriting replaces the one entry of a key. -/
private theorem overwrite_split (value old : β) (hk : (k == key) = true)
    (hbefore : Absent key before)
    (hafter : Absent key after) :
    overwrite key value (before ++ (k, old) :: after) = before ++ (k, value) :: after := by
  have hb := overwrite_of_absent value hbefore
  have ha := overwrite_of_absent value hafter
  unfold overwrite at hb ha ⊢
  rw [List.map_append, List.map_cons, hb, ha, if_pos hk]

/-- There is nothing to be taken out for a key that is absent. -/
private theorem filter_of_absent (h : Absent key entries) :
    entries.filter (!·.1 == key) = entries := by
  rw [List.filter_eq_self]
  intro entry hentry
  rw [h entry hentry, Bool.not_false]

/-- Taking out a key takes its one entry. -/
private theorem filter_split (old : β) (hk : (k == key) = true) (hbefore : Absent key before)
    (hafter : Absent key after) :
    (before ++ (k, old) :: after).filter (!·.1 == key) = before ++ after := by
  rw [List.filter_append, List.filter_cons, filter_of_absent hbefore, filter_of_absent hafter]
  simp [hk]

/-- A key is absent if nothing is found for it. -/
theorem absent_iff_lookup [EquivBEq α] : Absent key entries ↔ entries.lookup key = none := by
  rw [List.lookup_eq_none_iff]
  refine forall_congr' fun entry => forall_congr' fun _ => ?_
  rw [bne, Bool.not_eq_true', BEq.comm]

/-- The first entry of a key is found. -/
theorem lookup_split [EquivBEq α] (value : β) (hk : (k == key) = true)
    (hbefore : Absent key before) :
    (before ++ (k, value) :: after).lookup key = some value := by
  rw [List.lookup_append, absent_iff_lookup.mp hbefore, List.lookup_cons, BEq.symm hk]
  rfl

omit [BEq α] in
/-- Entries with the same keys, each once, are the same if those of one are all in the other. -/
theorem eq_of_subset {others : List (α × β)}
    (hkeys : entries.map (·.1) = others.map (·.1)) (hnodup : (entries.map (·.1)).Nodup)
    (hsubset : ∀ entry ∈ entries, entry ∈ others) : entries = others := by
  induction entries generalizing others with
  | nil => exact (List.map_eq_nil_iff.mp hkeys.symm).symm
  | cons entry rest ih =>
    cases others with
    | nil => exact nomatch hkeys
    | cons other others =>
      obtain ⟨hkey, hrest⟩ := List.cons.inj hkeys
      obtain ⟨hfresh, hnodup⟩ := List.nodup_cons.mp hnodup
      have heq : entry = other := by
        refine (List.mem_cons.mp (hsubset entry List.mem_cons_self)).resolve_right fun hmem => ?_
        exact hfresh (hrest ▸ List.mem_map_of_mem hmem)
      -- an entry of the first list is among the later ones of the second, as its key is not that of
      -- the head
      have hmore : ∀ e ∈ rest, e ∈ others := by
        intro e he
        refine (List.mem_cons.mp (hsubset e (List.mem_cons_of_mem entry he))).resolve_left ?_
        rintro rfl
        exact hfresh (hkey ▸ List.mem_map_of_mem he)
      rw [heq, ih hrest hnodup hmore]

/-! #### Keys that are equal if they are the same -/

variable [LawfulBEq α]

/-- A key is absent if no entry has it. -/
theorem absent_iff_not_mem : Absent key entries ↔ key ∉ entries.map (·.1) := by
  rw [List.mem_map]
  constructor
  · rintro h ⟨entry, hentry, rfl⟩
    exact absurd (h entry hentry) (by simp)
  · intro h entry hentry
    exact beq_false_of_ne fun heq => h ⟨entry, hentry, heq⟩

/-- Overwriting a key that no entry has changes nothing. -/
theorem overwrite_of_not_mem (value : β) (h : key ∉ entries.map (·.1)) :
    overwrite key value entries = entries :=
  overwrite_of_absent value (absent_iff_not_mem.mpr h)

/-- A key that is there has the value by which it was overwritten. -/
theorem lookup_overwrite_self (value : β) (h : key ∈ entries.map (·.1)) :
    (overwrite key value entries).lookup key = some value := by
  induction entries with
  | nil => exact nomatch h
  | cons entry rest ih =>
    rw [overwrite, List.map_cons, ← overwrite]
    by_cases heq : entry.1 = key
    · rw [if_pos (beq_iff_eq.mpr heq), heq, List.lookup_cons_self]
    · have hrest : key ∈ rest.map (·.1) := (List.mem_cons.mp h).resolve_left (Ne.symm heq)
      rw [if_neg (mt beq_iff_eq.mp heq), List.lookup_cons, beq_false_of_ne (Ne.symm heq)]
      exact ih hrest

/-- All other keys keep what they have. -/
theorem lookup_overwrite_of_ne (value : β) {other : α} (h : other ≠ key) :
    (overwrite key value entries).lookup other = entries.lookup other := by
  induction entries with
  | nil => rfl
  | cons entry rest ih =>
    rw [overwrite, List.map_cons, ← overwrite]
    by_cases heq : entry.1 = key
    · have hfalse : (other == entry.1) = false := beq_false_of_ne (heq ▸ h)
      rw [if_pos (beq_iff_eq.mpr heq), List.lookup_cons, List.lookup_cons, hfalse]
      exact ih
    · rw [if_neg (mt beq_iff_eq.mp heq), List.lookup_cons, List.lookup_cons, ih]

end Entries

/-- Keys that all differ are no more than the keys among which each of them is. -/
private theorem length_le_of_distinct [EquivBEq α] {xs ys : List α}
    (hdistinct : xs.Pairwise fun x y => (x == y) = false)
    (h : ∀ x ∈ xs, ys.contains x = true) : xs.length ≤ ys.length := by
  induction xs generalizing ys with
  | nil => exact Nat.zero_le _
  | cons x rest ih =>
    obtain ⟨hx, hrest⟩ := List.pairwise_cons.mp hdistinct
    obtain ⟨y, hy, hsame⟩ := List.contains_iff_exists_mem_beq.mp (h x List.mem_cons_self)
    -- What is taken away for the first key is not needed for the others.
    have hothers : ∀ x' ∈ rest, (ys.eraseP (x == ·)).contains x' = true := by
      intro x' hx'
      obtain ⟨y', hy', hsame'⟩ :=
        List.contains_iff_exists_mem_beq.mp (h x' (List.mem_cons_of_mem x hx'))
      have hdiffer : ¬ (x == y') = true := by
        rw [BEq.neq_of_neq_of_beq (hx x' hx') hsame']
        exact Bool.false_ne_true
      exact List.contains_iff_exists_mem_beq.mpr
        ⟨y', (List.mem_eraseP_of_neg hdiffer).mpr hy', hsame'⟩
    have hlength := ih hrest hothers
    rw [List.length_eraseP_of_mem hy hsame] at hlength
    have hpos := List.length_pos_of_mem hy
    rw [List.length_cons]
    omega

namespace OrderedMap

open Entries

variable [Hashable α] {m : OrderedMap α β}

/-- The index has a key exactly where the slots have it. -/
def Coherent (m : OrderedMap α β) : Prop :=
  ∀ key i, m.index[key]? = some i ↔ ∃ entry, m.slot? i = some entry ∧ (entry.1 == key) = true

/-! ### Finding an entry -/

omit [BEq α] [Hashable α] in
/-- An entry is in the list if some slot holds it. -/
private theorem mem_filterMap_iff {slots : List (Option (α × β))} {entry : α × β} :
    entry ∈ slots.filterMap id ↔ ∃ i : Nat, slots[i]? = some (some entry) := by
  rw [List.mem_filterMap]
  constructor
  · rintro ⟨slot, hslot, rfl⟩
    exact List.mem_iff_getElem?.mp hslot
  · rintro ⟨i, hi⟩
    exact ⟨some entry, List.mem_iff_getElem?.mpr ⟨i, hi⟩, rfl⟩

omit [BEq α] [Hashable α] in
/-- An entry in a slot stands between the entries before and after it. -/
theorem filterMap_split (before after : List (Option (α × β))) (entry : α × β) :
    (before ++ some entry :: after).filterMap id =
      before.filterMap id ++ entry :: after.filterMap id := by
  rw [List.filterMap_append]
  rfl

/-- A slot that holds an entry is one of the list of slots. -/
private theorem slot?_eq_some {i : Nat} {entry : α × β} :
    m.slot? i = some entry ↔ m.slots.toList[i]? = some (some entry) := by
  rw [slot?, Option.join_eq_some_iff, Array.getElem?_toList]

/-- Slots that hold something are within bounds. -/
private theorem lt_size_of_slot? {i : Nat} {entry : α × β} (h : m.slot? i = some entry) :
    i < m.slots.size := by
  have hget := slot?_eq_some.mp h
  rw [List.getElem?_eq_some_iff] at hget
  exact hget.1

/-- The entries are what the slots hold. -/
theorem mem_toList {entry : α × β} : entry ∈ m.toList ↔ ∃ i, m.slot? i = some entry := by
  simp only [slot?_eq_some]
  exact mem_filterMap_iff

/-! ### Places -/

/-- All of a map but the values: in which slots there are keys, and how the keys are found. -/
def places (m : OrderedMap α β) : List (Option α) × Std.HashMap α Nat × Nat :=
  (m.slots.toList.map (Option.map (·.1)), m.index, m.vacant)

omit [BEq α] [Hashable α] in
/-- Slots are determined by which of them have which keys, and by the entries in order. -/
private theorem slots_eq {slots others : List (Option (α × β))}
    (hplaces : slots.map (Option.map (·.1)) = others.map (Option.map (·.1)))
    (hentries : slots.filterMap id = others.filterMap id) : slots = others := by
  induction slots generalizing others with
  | nil => exact (List.map_eq_nil_iff.mp hplaces.symm).symm
  | cons slot rest ih =>
    cases others with
    | nil => exact nomatch hplaces
    | cons other others =>
      obtain ⟨hslot, hrest⟩ := List.cons.inj hplaces
      cases slot with
      | none =>
        obtain rfl : other = none := Option.map_eq_none_iff.mp hslot.symm
        exact congrArg (List.cons none) (ih hrest hentries)
      -- the keys say that both slots are taken, and the entries then say by the same one
      | some entry =>
        obtain ⟨entry', rfl, -⟩ := Option.map_eq_some_iff.mp hslot.symm
        obtain ⟨rfl, hmore⟩ := List.cons.inj hentries
        exact congrArg (List.cons (some entry)) (ih hrest hmore)

/-- Maps with the same entries in the same places are the same. -/
theorem eq_of_places {m' : OrderedMap α β} (hplaces : m.places = m'.places)
    (hentries : m.toList = m'.toList) : m = m' := by
  obtain ⟨⟨slots⟩, index, vacant⟩ := m
  obtain ⟨⟨slots'⟩, index', vacant'⟩ := m'
  obtain ⟨hslots, rfl, rfl⟩ : slots.map _ = slots'.map _ ∧ index = index' ∧ vacant = vacant' := by
    simpa only [places, Prod.mk.injEq] using hplaces
  rw [slots_eq hslots hentries]

/-- What is located for a key is what its slot holds. -/
private theorem slot?_of_locate? {key : α} {i : Nat} {entry : α × β}
    (h : m.locate? key = some (i, entry)) : m.slot? i = some entry := by
  rw [locate?] at h
  split at h
  · exact nomatch h
  · obtain ⟨found, hfound, heq⟩ := Option.map_eq_some_iff.mp h
    obtain ⟨rfl, rfl⟩ := Prod.mk.inj heq
    exact hfound

/-- Overwriting a value moves no key. -/
theorem places_replace (m : OrderedMap α β) (key : α) (value : β) :
    (m.replace key value).2.places = m.places := by
  rw [replace]
  cases hlocate : m.locate? key with
  | none => rfl
  | some found =>
    obtain ⟨i, k, old⟩ := found
    have hget := slot?_eq_some.mp (slot?_of_locate? hlocate)
    -- the key in the slot is written back, so the list of keys stays as it is
    have hkey : (m.slots.toList.map (Option.map (·.1)))[i]? = some (some k) := by
      rw [List.getElem?_map, hget]
      rfl
    obtain ⟨hlt, hkey⟩ := List.getElem?_eq_some_iff.mp hkey
    have hsame := List.set_getElem_self hlt
    rw [hkey] at hsame
    simp only [places, Array.toList_setIfInBounds, List.map_set, Option.map_some, hsame]

section Coherent

variable [EquivBEq α]

/-- A coherent map has a key in one slot at most. -/
theorem Coherent.slot_unique (hm : m.Coherent) {i j : Nat} {entry other : α × β}
    (hi : m.slot? i = some entry) (hj : m.slot? j = some other)
    (hsame : (entry.1 == other.1) = true) : i = j := by
  have hindex := (hm entry.1 i).mpr ⟨entry, hi, BEq.rfl⟩
  have hindex' := (hm entry.1 j).mpr ⟨other, hj, BEq.symm hsame⟩
  exact Option.some.inj (hindex.symm.trans hindex')

/-- The slots of a coherent map around the one of a key do not hold the key. -/
theorem Coherent.split (hm : m.Coherent) {key : α} {i : Nat} (hi : m.index[key]? = some i) :
    ∃ before k value after, m.slots.toList = before ++ some (k, value) :: after ∧
      before.length = i ∧ (k == key) = true ∧ Absent key (before.filterMap id) ∧
      Absent key (after.filterMap id) := by
  obtain ⟨⟨k, value⟩, hslot, hk⟩ := (hm key i).mp hi
  -- no other slot holds the key, which is what both sides come to
  have hunique : ∀ j entry, m.slots.toList[j]? = some (some entry) → (entry.1 == key) = true →
      j = i :=
    fun j entry hj hentry =>
      hm.slot_unique (slot?_eq_some.mpr hj) hslot (BEq.trans hentry (BEq.symm hk))
  obtain ⟨hlt, hget⟩ := List.getElem?_eq_some_iff.mp (slot?_eq_some.mp hslot)
  refine ⟨m.slots.toList.take i, k, value, m.slots.toList.drop (i + 1), ?_, ?_, hk, ?_, ?_⟩
  · rw [← hget, ← List.drop_eq_getElem_cons, List.take_append_drop]
  · exact List.length_take_of_le (Nat.le_of_lt hlt)
  · intro entry hentry
    rw [Bool.eq_false_iff]
    intro hsame
    obtain ⟨j, hj⟩ := mem_filterMap_iff.mp hentry
    rw [List.getElem?_take] at hj
    split at hj
    · next hji => exact absurd (hunique j entry hj hsame) (Nat.ne_of_lt hji)
    · exact nomatch hj
  · intro entry hentry
    rw [Bool.eq_false_iff]
    intro hsame
    obtain ⟨j, hj⟩ := mem_filterMap_iff.mp hentry
    -- counted from the slot after that of the key
    rw [List.getElem?_drop] at hj
    have := hunique _ entry hj hsame
    omega

omit [EquivBEq α] in
/-- A key that no entry has is not in the index. -/
private theorem Coherent.index_eq_none (hm : m.Coherent) {key : α} :
    m.index[key]? = none ↔ Absent key m.toList := by
  constructor
  · -- an entry with the key would be in the index
    intro hnone entry hentry
    rw [Bool.eq_false_iff]
    intro hsame
    obtain ⟨i, hi⟩ := mem_toList.mp hentry
    exact nomatch hnone.symm.trans ((hm key i).mpr ⟨entry, hi, hsame⟩)
  · -- a place in the index would have an entry with the key
    intro habsent
    rw [Option.eq_none_iff_forall_ne_some]
    intro i hi
    obtain ⟨entry, hslot, hsame⟩ := (hm key i).mp hi
    exact absurd ((habsent entry (mem_toList.mpr ⟨i, hslot⟩)).symm.trans hsame) Bool.false_ne_true

/-- Where a coherent map has a key, if it has it: the slots before its own, its entry, and the slots
    after its own. -/
theorem Coherent.locate? (hm : m.Coherent) (key : α) :
    (Absent key m.toList ∧ m.index[key]? = none ∧ m.locate? key = none) ∨
    ∃ before k value after, (k == key) = true ∧ m.index[key]? = some before.length ∧
      m.slot? before.length = some (k, value) ∧
      m.locate? key = some (before.length, k, value) ∧
      m.slots.toList = before ++ some (k, value) :: after ∧
      Absent key (before.filterMap id) ∧ Absent key (after.filterMap id) := by
  -- what the index says of the key
  cases hi : m.index[key]? with
  | none =>
    exact Or.inl ⟨hm.index_eq_none.mp hi, rfl, by simp only [OrderedMap.locate?, hi]⟩
  | some i =>
    obtain ⟨before, k, value, after, hsplit, rfl, hk, hbefore, hafter⟩ := hm.split hi
    have hslot : m.slot? before.length = some (k, value) := by
      rw [slot?_eq_some, hsplit, List.getElem?_append_right (Nat.le_refl _), Nat.sub_self]
      rfl
    refine Or.inr ⟨before, k, value, after, hk, rfl, hslot, ?_, hsplit, hbefore, hafter⟩
    simp only [OrderedMap.locate?, hi, hslot, Option.map_some]

/-! ### Reading -/

/-- What is read for a key is what its list of entries has for it. -/
theorem get?_eq_lookup (hm : m.Coherent) (key : α) : m.get? key = m.toList.lookup key := by
  rcases hm.locate? key with ⟨habsent, -, hlocate⟩ |
    ⟨before, k, value, after, hk, -, -, hlocate, hsplit, hbefore, -⟩
  · rw [get?, hlocate, absent_iff_lookup.mp habsent]
    rfl
  · rw [get?, hlocate, toList, hsplit, filterMap_split, lookup_split value hk hbefore]
    rfl

/-- A key is found if an entry has it. -/
theorem contains_eq_any [LawfulHashable α] (hm : m.Coherent) (key : α) :
    m.contains key = m.toList.any (·.1 == key) := by
  rw [contains, Std.HashMap.contains_eq_isSome_getElem?, Bool.eq_iff_iff, Option.isSome_iff_exists,
    List.any_eq_true]
  constructor
  · rintro ⟨i, hi⟩
    obtain ⟨entry, hentry, hsame⟩ := (hm key i).mp hi
    exact ⟨entry, mem_toList.mpr ⟨i, hentry⟩, hsame⟩
  · rintro ⟨entry, hentry, hsame⟩
    obtain ⟨i, hi⟩ := mem_toList.mp hentry
    exact ⟨i, (hm key i).mpr ⟨entry, hi, hsame⟩⟩

/-- A coherent map has each key once. -/
theorem distinct_toList (hm : m.Coherent) :
    m.toList.Pairwise fun entry other => (entry.1 == other.1) = false := by
  have hunique : ∀ (i j : Nat) entry other, m.slots.toList[i]? = some (some entry) →
      m.slots.toList[j]? = some (some other) → (entry.1 == other.1) = true → i = j :=
    fun i j entry other hi hj => hm.slot_unique (slot?_eq_some.mpr hi) (slot?_eq_some.mpr hj)
  unfold toList
  -- The gaps between the entries do not matter.
  generalize m.slots.toList = slots at hunique
  induction slots with
  | nil => exact List.Pairwise.nil
  | cons slot rest ih =>
    have hrest := ih fun i j entry other hi hj hsame =>
      Nat.succ.inj (hunique (i + 1) (j + 1) entry other hi hj hsame)
    cases slot with
    | none => exact hrest
    | some entry =>
      refine List.pairwise_cons.mpr ⟨fun other hother => ?_, hrest⟩
      rw [Bool.eq_false_iff]
      intro hsame
      obtain ⟨i, hi⟩ := mem_filterMap_iff.mp hother
      exact nomatch hunique 0 (i + 1) entry other rfl hi hsame

/-- The size of a map is the number of its entries. -/
theorem size_eq_length [LawfulHashable α] (hm : m.Coherent) : m.size = m.toList.length := by
  have hkeys : m.toList.length = m.keys.length := (List.length_map _).symm
  have hdistinct : m.keys.Pairwise fun key other => (key == other) = false :=
    List.pairwise_map.mpr (distinct_toList hm)
  rw [size, ← Std.HashMap.length_keys, hkeys]
  -- the keys of the index and those of the entries are equally many, as each list is without
  -- repetitions and has the keys of the other
  apply Nat.le_antisymm
  · refine length_le_of_distinct Std.HashMap.distinct_keys fun key hkey => ?_
    have hcontains : m.contains key = true := by
      rw [contains, ← Std.HashMap.contains_keys]
      exact List.contains_iff_exists_mem_beq.mpr ⟨key, hkey, BEq.rfl⟩
    rw [contains_eq_any hm, List.any_eq_true] at hcontains
    obtain ⟨entry, hentry, hsame⟩ := hcontains
    exact List.contains_iff_exists_mem_beq.mpr
      ⟨entry.1, List.mem_map_of_mem hentry, BEq.symm hsame⟩
  · refine length_le_of_distinct hdistinct fun key hkey => ?_
    obtain ⟨entry, hentry, rfl⟩ := List.mem_map.mp hkey
    rw [Std.HashMap.contains_keys, ← contains, contains_eq_any hm, List.any_eq_true]
    exact ⟨entry, hentry, BEq.rfl⟩

/-- A map is empty if it has no entries. -/
theorem isEmpty_eq_isEmpty [LawfulHashable α] (hm : m.Coherent) :
    m.isEmpty = m.toList.isEmpty := by
  rw [isEmpty, Std.HashMap.isEmpty_eq_size_eq_zero, ← size, size_eq_length hm]
  cases m.toList <;> rfl

/-! ### Overwriting -/

omit [EquivBEq α] in
/-- A map with another value in a slot. -/
private theorem coherent_set (hm : m.Coherent) {k : α} {i : Nat} {old : β} (value : β)
    (hslot : m.slot? i = some (k, old)) :
    Coherent { m with slots := m.slots.setIfInBounds i (some (k, value)) } := by
  intro key j
  rw [hm key j]
  have hlt := lt_size_of_slot? hslot
  simp only [slot?, Array.getElem?_setIfInBounds]
  -- the place that is set keeps its key, and the others are as they were
  by_cases hij : i = j
  · subst hij
    rw [slot?] at hslot
    rw [if_pos rfl, if_pos hlt, hslot]
    simp
  · rw [if_neg hij]

/-- Overwriting a value is done on the list of entries. -/
theorem toList_replace (hm : m.Coherent) (key : α) (value : β) :
    (m.replace key value).2.toList = overwrite key value m.toList := by
  rcases hm.locate? key with ⟨habsent, -, hlocate⟩ |
    ⟨before, k, old, after, hk, -, -, hlocate, hsplit, hbefore, hafter⟩
  · simp only [replace, hlocate]
    rw [overwrite_of_absent value habsent]
  · simp only [replace, hlocate, toList, Array.toList_setIfInBounds, hsplit]
    rw [List.set_append_right before.length _ (Nat.le_refl _), Nat.sub_self, List.set_cons_zero,
      filterMap_split, filterMap_split]
    exact (overwrite_split value old hk hbefore hafter).symm

/-- The old value is given back. -/
theorem fst_replace (hm : m.Coherent) (key : α) (value : β) :
    (m.replace key value).1 = m.toList.lookup key := by
  rw [← get?_eq_lookup hm, replace, get?]
  cases m.locate? key <;> rfl

/-- A map that is overwritten stays coherent. -/
theorem coherent_replace (hm : m.Coherent) (key : α) (value : β) :
    (m.replace key value).2.Coherent := by
  rcases hm.locate? key with ⟨-, -, hlocate⟩ | ⟨before, k, old, after, -, -, hslot, hlocate, -⟩
  · simp only [replace, hlocate]
    exact hm
  · simp only [replace, hlocate]
    exact coherent_set hm value hslot

/-- To insert a key that is there is to overwrite its value. -/
theorem insert_of_lookup (hm : m.Coherent) {key : α} {old : β} (value : β)
    (hkey : m.toList.lookup key = some old) : m.insert key value = m.replace key value := by
  rcases hm.locate? key with ⟨habsent, -⟩ | ⟨before, k, old, after, -, -, -, hlocate, -⟩
  · exact nomatch (absent_iff_lookup.mp habsent).symm.trans hkey
  · simp only [insert, replace, hlocate]

/-! ### Overwriting all values -/

omit [BEq α] [EquivBEq α] in
/-- Overwriting all values is done entry by entry. -/
theorem toList_mapValues [BEq α] (m : OrderedMap α β) (f : α → β → β) :
    (m.mapValues f).toList = m.toList.map fun (key, value) => (key, f key value) := by
  rw [mapValues, toList, Array.toList_map, List.filterMap_map, toList, List.map_filterMap]
  rfl

omit [EquivBEq α] in
/-- The index of a map whose values are overwritten stays right. -/
theorem coherent_mapValues (hm : m.Coherent) (f : α → β → β) : (m.mapValues f).Coherent := by
  intro key i
  have hslot : (m.mapValues f).slot? i = (m.slot? i).map fun (k, value) => (k, f k value) := by
    simp only [mapValues, slot?, Array.getElem?_map]
    cases m.slots[i]? <;> rfl
  rw [hslot]
  -- the same slots are taken, by the same keys
  refine (hm key i).trans ⟨?_, ?_⟩
  · rintro ⟨entry, hentry, hsame⟩
    exact ⟨(entry.1, f entry.1 entry.2), by rw [hentry]; rfl, hsame⟩
  · rintro ⟨entry, hentry, hsame⟩
    obtain ⟨old, hold, rfl⟩ := Option.map_eq_some_iff.mp hentry
    exact ⟨old, hold, hsame⟩

/-! ### Appending -/

omit [EquivBEq α] in
/-- A key without an entry is not located. -/
theorem locate?_of_absent (hm : m.Coherent) {key : α} (habsent : Absent key m.toList) :
    m.locate? key = none := by
  rw [OrderedMap.locate?, hm.index_eq_none.mpr habsent]

omit [EquivBEq α] in
/-- A new key goes to the end. -/
theorem toList_insert_of_absent (hm : m.Coherent) {key : α} (value : β)
    (habsent : Absent key m.toList) :
    (m.insert key value).2.toList = m.toList ++ [(key, value)] := by
  simp only [insert, locate?_of_absent hm habsent, toList, Array.toList_push,
    List.filterMap_append]
  rfl

/-- What the key had before is given back. -/
theorem fst_insert (hm : m.Coherent) (key : α) (value : β) :
    (m.insert key value).1 = m.toList.lookup key := by
  rw [← get?_eq_lookup hm, insert, get?]
  cases m.locate? key <;> rfl

/-- A map in which a key is inserted stays coherent. -/
theorem coherent_insert [LawfulHashable α] (hm : m.Coherent) (key : α) (value : β) :
    (m.insert key value).2.Coherent := by
  cases hlookup : m.toList.lookup key with
  | some old =>
    rw [insert_of_lookup hm value hlookup]
    exact coherent_replace hm key value
  | none =>
    have habsent := absent_iff_lookup.mpr hlookup
    simp only [insert, locate?_of_absent hm habsent]
    intro k j
    rw [Std.HashMap.getElem?_insert]
    simp only [slot?, Array.getElem?_push]
    by_cases hj : j = m.slots.size
    · -- the new slot: no key had this position
      have hbound : m.index[k]? ≠ some j := by
        intro hk
        obtain ⟨entry, hentry, -⟩ := (hm k j).mp hk
        exact absurd (lt_size_of_slot? hentry) (by omega)
      rw [if_pos hj]
      split
      · next hsame => simp [hj, hsame]
      · next hdiffer => simp [hbound, hdiffer]
    · rw [if_neg hj]
      split
      · next hsame =>
        refine ⟨fun h => absurd (Option.some.inj h).symm hj, ?_⟩
        rintro ⟨entry, hentry, hk⟩
        have hfalse := habsent entry (mem_toList.mpr ⟨j, hentry⟩)
        rw [BEq.trans hk (BEq.symm hsame)] at hfalse
        exact nomatch hfalse
      · exact hm k j

/-! ### Removing -/

omit [EquivBEq α] in
/-- Moving the entries together leaves them in their order. -/
private theorem toList_compact (m : OrderedMap α β) : m.compact.toList = m.toList := by
  rw [compact, toList, List.filterMap_map]
  exact List.filterMap_some

/-- Numbering the keys of some entries leaves the numbers of other keys. -/
private theorem number_of_absent [LawfulHashable α] {key : α} {entries : List (α × β)}
    (h : Absent key entries) (n : Nat) (index : Std.HashMap α Nat) :
    ((entries.zipIdx n).foldl (fun index (entry, i) => index.insert entry.1 i) index)[key]? =
      index[key]? := by
  induction entries generalizing n index with
  | nil => rfl
  | cons entry rest ih =>
    have hrest : Absent key rest := fun other hother => h other (List.mem_cons_of_mem entry hother)
    rw [List.zipIdx_cons, List.foldl_cons, ih hrest, Std.HashMap.getElem?_insert, if_neg]
    rw [h entry List.mem_cons_self]
    exact Bool.false_ne_true

/-- Numbering the keys of some entries gives each of them its number. -/
private theorem number_of_mem [LawfulHashable α] {key : α} {entry : α × β}
    {entries : List (α × β)} {i : Nat}
    (hdistinct : entries.Pairwise fun entry other => (entry.1 == other.1) = false)
    (h : entries[i]? = some entry) (hsame : (entry.1 == key) = true) (n : Nat)
    (index : Std.HashMap α Nat) :
    ((entries.zipIdx n).foldl (fun index (entry, i) => index.insert entry.1 i) index)[key]? =
      some (n + i) := by
  induction entries generalizing n index i with
  | nil => exact nomatch h
  | cons first rest ih =>
    obtain ⟨hfirst, hrest⟩ := List.pairwise_cons.mp hdistinct
    rw [List.zipIdx_cons, List.foldl_cons]
    -- the entry itself gets its number last, and no later one has its key
    cases i with
    | zero =>
      obtain rfl := Option.some.inj h
      have habsent : Absent key rest := fun other hother =>
        BEq.neq_of_neq_of_beq (BEq.symm_false (hfirst other hother)) hsame
      rw [number_of_absent habsent, Std.HashMap.getElem?_insert, if_pos hsame, Nat.add_zero]
    | succ i =>
      rw [ih hrest h, Nat.add_assoc, Nat.add_comm 1 i]

/-- A map whose entries are moved together is coherent. -/
private theorem coherent_compact [LawfulHashable α] (hm : m.Coherent) : m.compact.Coherent := by
  -- the slots are the entries now, so the position of an entry is its place among them
  have hslot : ∀ i, m.compact.slot? i = m.toList[i]? := by
    intro i
    simp only [compact, slot?, List.getElem?_toArray, List.getElem?_map]
    cases m.toList[i]? <;> rfl
  have hnumber : ∀ {key : α} {entry : α × β} {i : Nat}, m.toList[i]? = some entry →
      (entry.1 == key) = true → m.compact.index[key]? = some i := by
    intro key entry i h hsame
    rw [compact, number_of_mem (distinct_toList hm) h hsame, Nat.zero_add]
  intro key i
  rw [hslot]
  constructor
  · intro h
    cases hindex : m.index[key]? with
    | none =>
      rw [compact, number_of_absent (hm.index_eq_none.mp hindex), hindex] at h
      exact nomatch h
    | some old =>
      obtain ⟨entry, hentry, hsame⟩ := (hm key old).mp hindex
      obtain ⟨j, hj⟩ := List.mem_iff_getElem?.mp (mem_toList.mpr ⟨old, hentry⟩)
      obtain rfl : j = i := Option.some.inj ((hnumber hj hsame).symm.trans h)
      exact ⟨entry, hj, hsame⟩
  · rintro ⟨entry, hentry, hsame⟩
    exact hnumber hentry hsame

/-- The map with a gap in place of a key. -/
private theorem coherent_gapped [LawfulHashable α] (hm : m.Coherent) {key k : α} {i : Nat}
    {old : β} (vacant : Nat) (hk : (k == key) = true) (hslot : m.slot? i = some (k, old)) :
    Coherent ⟨m.slots.setIfInBounds i none, m.index.erase key, vacant⟩ := by
  have hlt := lt_size_of_slot? hslot
  intro other j
  rw [Std.HashMap.getElem?_erase]
  simp only [slot?, Array.getElem?_setIfInBounds]
  by_cases hij : i = j
  · subst hij
    rw [if_pos rfl, if_pos hlt]
    split
    · simp
    · -- No other key had the slot that became a gap.
      next hdiffer =>
      refine ⟨fun h => ?_, fun ⟨entry, hentry, _⟩ => nomatch hentry⟩
      obtain ⟨entry, hentry, hsame⟩ := (hm other i).mp h
      obtain rfl := Option.some.inj (hslot.symm.trans hentry)
      exact absurd (BEq.trans (BEq.symm hk) hsame) hdiffer
  · rw [if_neg hij]
    split
    · next hsame =>
      refine ⟨nofun, fun ⟨entry, hentry, hother⟩ => ?_⟩
      have hboth : (k == entry.1) = true :=
        BEq.trans hk (BEq.trans hsame (BEq.symm hother))
      exact absurd (hm.slot_unique hslot hentry hboth) hij
    · exact hm other j

/-- Removing a key is done on the list of entries. -/
theorem toList_erase (hm : m.Coherent) (key : α) :
    (m.erase key).2.toList = m.toList.filter (!·.1 == key) := by
  rcases hm.locate? key with ⟨habsent, hnone, -⟩ |
    ⟨before, k, old, after, hk, hindex, hslot, -, hsplit, hbefore, hafter⟩
  · simp only [erase, hnone]
    rw [filter_of_absent habsent]
  · have hgapped : (m.slots.setIfInBounds before.length none).toList.filterMap id =
        m.toList.filter (!·.1 == key) := by
      rw [toList, Array.toList_setIfInBounds, hsplit,
        List.set_append_right before.length _ (Nat.le_refl _), Nat.sub_self, List.set_cons_zero,
        filterMap_split, filter_split old hk hbefore hafter, List.filterMap_append]
      rfl
    simp only [erase, hindex, hslot]
    -- the entries are moved together when there are too many gaps, which is not seen in the list
    split
    · rw [toList_compact]
      exact hgapped
    · exact hgapped

/-- What was removed is given back. -/
theorem fst_erase (hm : m.Coherent) (key : α) : (m.erase key).1 = m.toList.lookup key := by
  rw [← get?_eq_lookup hm, get?]
  rcases hm.locate? key with ⟨-, hnone, hlocate⟩ |
    ⟨before, k, old, after, -, hindex, hslot, hlocate, -⟩
  · simp only [erase, hnone, hlocate]
    rfl
  · simp only [erase, hindex, hslot, hlocate]
    rfl

/-- A map from which a key is removed stays coherent. -/
theorem coherent_erase [LawfulHashable α] (hm : m.Coherent) (key : α) :
    (m.erase key).2.Coherent := by
  rcases hm.locate? key with ⟨-, hnone, -⟩ | ⟨before, k, old, after, hk, hindex, hslot, -⟩
  · simp only [erase, hnone]
    exact hm
  · simp only [erase, hindex, hslot]
    split
    · exact coherent_compact (coherent_gapped hm _ hk hslot)
    · exact coherent_gapped hm _ hk hslot

end Coherent

/-- The empty map is coherent. -/
theorem coherent_empty : (empty : OrderedMap α β).Coherent := by
  intro key i
  simp [empty, slot?]

/-! ### Keys that are equal if they are the same -/

section Lawful

variable [LawfulBEq α]

/-- A key is absent if it is not among the keys. -/
theorem absent_toList_iff {key : α} : Absent key m.toList ↔ key ∉ m.keys :=
  absent_iff_not_mem

/-- A map has the keys that are among its keys. -/
theorem contains_iff (hm : m.Coherent) {key : α} : m.contains key = true ↔ key ∈ m.keys := by
  rw [contains_eq_any hm, List.any_eq_true, keys, List.mem_map]
  simp only [beq_iff_eq]

/-- A key that is not there is put at the end. -/
theorem toList_insert (hm : m.Coherent) {key : α} (value : β) (hkey : key ∉ m.keys) :
    (m.insert key value).2.toList = m.toList ++ [(key, value)] :=
  toList_insert_of_absent hm value (absent_toList_iff.mpr hkey)

/-- A coherent map has each key once. -/
theorem nodup_keys (hm : m.Coherent) : m.keys.Nodup := by
  rw [keys, List.Nodup, List.pairwise_map]
  exact (distinct_toList hm).imp fun hdiffer => ne_of_beq_false hdiffer

end Lawful

end OrderedMap

end PmacPoll
