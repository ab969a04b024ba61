import PmacPoll.Proofs.OrderedMapEntries

/-!
# What clients see of an ordered map

An ordered map cannot be told from a plain list of entries in which a key that is there is
overwritten in its place, a new key goes to the end, and a key that is removed takes its entry along
and moves no other.

`Operation` is what clients may do: `Operation.run` does it on a map, `Operation.runEntries` on a
list. `View` is all that they can read. On a coherent map one operation comes to the same on both
sides, `run_eq_runEntries`, and the two look the same, `view_eq_view`. The main result is
`runAll_eq_runEntries`.
-/

namespace PmacPoll

variable {α β : Type}

namespace OrderedMap

/-- All that can be read of a map. -/
structure View (α β : Type) where
  size : Nat
  isEmpty : Bool
  contains : α → Bool
  get? : α → Option β
  first? : Option α
  next? : α → Option α
  keys : List α
  values : List β
  entries : List (α × β)

/-- What clients may do with a map. -/
inductive Operation (α β : Type) where
  | insert (key : α) (value : β)
  | get? (key : α)
  /-- Writes to the value of a key, if the key is there. -/
  | replace (key : α) (value : β)
  | contains (key : α)
  | erase (key : α)
  /-- Goes through all entries and writes to their values. -/
  | mapValues (f : α → β → β)
  | clear

/-- What clients are told. -/
inductive Answer (α β : Type) where
  /-- The value that a key has, or had. -/
  | value (value : Option β)
  | found (found : Bool)
  /-- The entries that were gone through, as they were. -/
  | entries (entries : List (α × β))
  | done
  deriving DecidableEq

/-- Does some operations one after another, on whatever they are done on. -/
def runAll {σ : Type} (run : Operation α β → σ → Answer α β × σ) :
    List (Operation α β) → σ → List (Answer α β) × σ
  | [], s => ([], s)
  | op :: more, s =>
    let (answer, s) := run op s
    let (answers, s) := runAll run more s
    (answer :: answers, s)

/-- Operations in a row are done in two parts. -/
theorem runAll_append {σ : Type} (run : Operation α β → σ → Answer α β × σ)
    (ops more : List (Operation α β)) (s : σ) :
    (runAll run (ops ++ more) s).2 = (runAll run more (runAll run ops s).2).2 := by
  induction ops generalizing s with
  | nil => rfl
  | cons op rest ih => exact ih (run op s).2

variable [BEq α] [Hashable α]

/-- All that can be read of a map. -/
def view (m : OrderedMap α β) : View α β where
  size := m.size
  isEmpty := m.isEmpty
  contains := m.contains
  get? := m.get?
  first? := m.first?
  next? := m.next?
  keys := m.keys
  values := m.values
  entries := m.toList

/-- Does an operation on a map. -/
def Operation.run : Operation α β → OrderedMap α β → Answer α β × OrderedMap α β
  | insert key value, m =>
    let (old, m) := m.insert key value
    (.value old, m)
  | get? key, m => (.value (m.get? key), m)
  | replace key value, m =>
    let (old, m) := m.replace key value
    (.value old, m)
  | contains key, m => (.found (m.contains key), m)
  | erase key, m =>
    let (old, m) := m.erase key
    (.value old, m)
  | mapValues f, m => (.entries m.toList, m.mapValues f)
  | clear, _ => (.done, .empty)

/-- A map without entries, with room for some of them or without. -/
def fresh : (capacity : Option Nat) → OrderedMap α β
  | none => .empty
  | some capacity => .emptyWithCapacity capacity

end OrderedMap

/-! ### The list -/

namespace Entries

open OrderedMap

variable [BEq α]

/-- The entries with a value for a key, in the place of the key or at the end. -/
def put (key : α) (value : β) (entries : List (α × β)) : List (α × β) :=
  if entries.any (·.1 == key) then overwrite key value entries else entries ++ [(key, value)]

/-- The entries without that of a key. -/
def remove (key : α) (entries : List (α × β)) : List (α × β) :=
  entries.filter (!·.1 == key)

/-- The key after a given one. -/
def next? (key : α) : List (α × β) → Option α
  | [] => none
  | (k, _) :: rest => if k == key then rest.head?.map (·.1) else next? key rest

/-- All that can be read of a list of entries. -/
def view (entries : List (α × β)) : View α β where
  size := entries.length
  isEmpty := entries.isEmpty
  contains key := entries.any (·.1 == key)
  get? key := entries.lookup key
  first? := entries.head?.map (·.1)
  next? key := next? key entries
  keys := entries.map (·.1)
  values := entries.map (·.2)
  entries := entries

variable {key : α} {entries before after : List (α × β)}

/-- A list has an entry of a key, or the key is absent. -/
private theorem any_iff_not_absent : entries.any (·.1 == key) = true ↔ ¬ Absent key entries := by
  simp [Absent, List.any_eq_true]

/-- A new key goes to the end. -/
private theorem put_of_absent (value : β) (h : Absent key entries) :
    put key value entries = entries ++ [(key, value)] :=
  if_neg fun hany => any_iff_not_absent.mp hany h

/-- A key that is removed is absent. -/
private theorem absent_remove (key : α) (entries : List (α × β)) :
    Absent key (remove key entries) := by
  intro entry hentry
  have hkeeps := (List.mem_filter.mp hentry).2
  rwa [Bool.not_eq_true'] at hkeeps

/-- There is no key after one that is absent. -/
private theorem next?_of_absent (h : Absent key entries) : next? key entries = none := by
  induction entries with
  | nil => rfl
  | cons entry rest ih =>
    rw [next?, h entry List.mem_cons_self, if_neg Bool.false_ne_true]
    exact ih fun other hother => h other (List.mem_cons_of_mem entry hother)

/-- After a key comes that of the next entry. -/
theorem next?_split {k : α} (value : β) (hk : (k == key) = true) (hbefore : Absent key before) :
    next? key (before ++ (k, value) :: after) = after.head?.map (·.1) := by
  induction before with
  | nil => rw [List.nil_append, next?, if_pos hk]
  | cons entry rest ih =>
    rw [List.cons_append, next?, hbefore entry List.mem_cons_self, if_neg Bool.false_ne_true]
    exact ih fun other hother => hbefore other (List.mem_cons_of_mem entry hother)

end Entries

/-- Does an operation on a list of entries. -/
def OrderedMap.Operation.runEntries [BEq α] :
    Operation α β → List (α × β) → Answer α β × List (α × β)
  | insert key value, l => (.value (l.lookup key), Entries.put key value l)
  | get? key, l => (.value (l.lookup key), l)
  | replace key value, l => (.value (l.lookup key), Entries.overwrite key value l)
  | contains key, l => (.found (l.any (·.1 == key)), l)
  | erase key, l => (.value (l.lookup key), Entries.remove key l)
  | mapValues f, l => (.entries l, l.map fun (key, value) => (key, f key value))
  | clear, _ => (.done, [])

namespace OrderedMap

open Entries

variable [BEq α] [Hashable α] {m : OrderedMap α β}

/-! ### Walking -/

omit [BEq α] [Hashable α] in
/-- The first key in the slots is that of the first entry. -/
private theorem findSome?_slots (slots : List (Option (α × β))) :
    slots.findSome? (Option.map (·.1)) = (slots.filterMap id).head?.map (·.1) := by
  induction slots with
  | nil => rfl
  | cons slot rest ih =>
    cases slot with
    | none => exact ih
    | some entry => rfl

/-- The first key of a map is that of its first entry. -/
theorem first?_eq_head? (m : OrderedMap α β) : m.first? = m.toList.head?.map (·.1) :=
  findSome?_slots m.slots.toList

variable [EquivBEq α]

/-- The next key of a map is that of the next entry. -/
theorem next?_eq_next? (hm : m.Coherent) (key : α) : m.next? key = Entries.next? key m.toList := by
  rcases hm.locate? key with ⟨habsent, hnone, -⟩ |
    ⟨before, k, value, after, hk, hindex, -, -, hsplit, hbefore, -⟩
  · rw [next?, hnone, next?_of_absent habsent]
  · have hlater : m.slots.toList.drop (before.length + 1) = after := by
      rw [hsplit, List.append_cons, List.drop_left' (by simp)]
    rw [toList, hsplit, filterMap_split, next?_split value hk hbefore]
    simp only [next?, hindex, hlater]
    exact findSome?_slots after

variable [LawfulHashable α]

/-- A coherent map looks like its list of entries. -/
theorem view_eq_view (hm : m.Coherent) : m.view = Entries.view m.toList := by
  have hcontains : m.contains = fun key => m.toList.any (·.1 == key) :=
    funext (contains_eq_any hm)
  have hget : m.get? = fun key => m.toList.lookup key := funext (get?_eq_lookup hm)
  have hnext : m.next? = fun key => Entries.next? key m.toList := funext (next?_eq_next? hm)
  rw [view, Entries.view, size_eq_length hm, isEmpty_eq_isEmpty hm, first?_eq_head?, hcontains,
    hget, hnext]
  rfl

/-! ### One operation -/

omit [LawfulHashable α] in
/-- Inserting a key overwrites its value, or goes to the end. -/
private theorem toList_insert_eq_put (hm : m.Coherent) (key : α) (value : β) :
    (m.insert key value).2.toList = put key value m.toList := by
  cases hlookup : m.toList.lookup key with
  | none =>
    have habsent := absent_iff_lookup.mpr hlookup
    rw [toList_insert_of_absent hm value habsent, put_of_absent value habsent]
  | some old =>
    have hany : m.toList.any (·.1 == key) = true := by
      rw [any_iff_not_absent, absent_iff_lookup, hlookup]
      exact nofun
    rw [insert_of_lookup hm value hlookup, toList_replace hm, put, if_pos hany]

/-- An operation on a coherent map tells what it tells on the list of entries, and it keeps the map
    coherent and that list the list of its entries. -/
theorem run_eq_runEntries (hm : m.Coherent) (op : Operation α β) :
    (op.run m).2.Coherent ∧ (op.run m).1 = (op.runEntries m.toList).1 ∧
      (op.run m).2.toList = (op.runEntries m.toList).2 := by
  cases op with
  | insert key value =>
    -- a key that is there and one that is not are told apart on both sides by looking it up
    exact ⟨coherent_insert hm key value, congrArg Answer.value (fst_insert hm key value),
      toList_insert_eq_put hm key value⟩
  | get? key => exact ⟨hm, congrArg Answer.value (get?_eq_lookup hm key), rfl⟩
  | replace key value =>
    exact ⟨coherent_replace hm key value, congrArg Answer.value (fst_replace hm key value),
      toList_replace hm key value⟩
  | contains key => exact ⟨hm, congrArg Answer.found (contains_eq_any hm key), rfl⟩
  | erase key =>
    exact ⟨coherent_erase hm key, congrArg Answer.value (fst_erase hm key), toList_erase hm key⟩
  | mapValues f => exact ⟨coherent_mapValues hm f, rfl, toList_mapValues m f⟩
  | clear => exact ⟨coherent_empty, rfl, rfl⟩

/-! ### Runs -/

/-- So it is for operations in a row. -/
theorem runAll_of_coherent (hm : m.Coherent) (ops : List (Operation α β)) :
    (runAll Operation.run ops m).2.Coherent ∧
      (runAll Operation.run ops m).1 = (runAll Operation.runEntries ops m.toList).1 ∧
      (runAll Operation.run ops m).2.toList =
        (runAll Operation.runEntries ops m.toList).2 := by
  induction ops generalizing m with
  | nil => exact ⟨hm, rfl, rfl⟩
  | cons op more ih =>
    obtain ⟨hcoherent, hanswer, hlist⟩ := run_eq_runEntries hm op
    obtain ⟨hfinal, hanswers, hend⟩ := ih hcoherent
    rw [hlist] at hanswers hend
    exact ⟨hfinal, congr (congrArg List.cons hanswer) hanswers, hend⟩

omit [EquivBEq α] [LawfulHashable α] in
/-- A new map has no entries. -/
private theorem toList_fresh (capacity : Option Nat) :
    (fresh capacity : OrderedMap α β).toList = [] := by
  cases capacity <;> rfl

omit [EquivBEq α] [LawfulHashable α] in
/-- A new map is coherent. -/
theorem coherent_fresh (capacity : Option Nat) : (fresh capacity : OrderedMap α β).Coherent := by
  intro key i
  cases capacity <;> simp [fresh, empty, emptyWithCapacity, slot?]

/-- **An ordered map is a list of entries to its clients.** Whatever is done with a map that had no
    entries, every answer is the one that a plain list of entries would have given, and all that can
    be read of the map then is what can be read of that list. In particular a key that is removed
    and comes again is the last one. -/
theorem runAll_eq_runEntries (capacity : Option Nat) (ops : List (Operation α β)) :
    (runAll Operation.run ops (fresh capacity)).1 = (runAll Operation.runEntries ops []).1 ∧
    (runAll Operation.run ops (fresh capacity)).2.view =
      Entries.view (runAll Operation.runEntries ops []).2 ∧
    ∀ key value,
      (runAll Operation.run (ops ++ [.erase key, .insert key value]) (fresh capacity)).2.toList =
        remove key (runAll Operation.runEntries ops []).2 ++ [(key, value)] := by
  have hrun : ∀ ops : List (Operation α β), _ :=
    fun ops => runAll_of_coherent (coherent_fresh capacity) ops
  simp only [toList_fresh] at hrun
  obtain ⟨hcoherent, hanswers, hlist⟩ := hrun ops
  refine ⟨hanswers, ?_, fun key value => ?_⟩
  · rw [view_eq_view hcoherent, hlist]
  · rw [(hrun _).2.2, runAll_append]
    exact put_of_absent value (absent_remove key _)

/-- Four keys, of which the first three are removed, so that the gaps prevail and the map is
    compacted; then the first one comes again. -/
def comeAgain : List (Operation Nat Nat) :=
  [.insert 1 10, .insert 2 20, .insert 3 30, .insert 4 40, .erase 2, .erase 1, .erase 3,
    .insert 1 11, .mapValues fun key value => key + value, .replace 2 0]

/-- Keys that come again after they were removed are last; the others keep their places. -/
theorem runAll_eq_runEntries_comeAgain :
    (runAll Operation.run comeAgain (fresh (some 2))).1 =
      [.value none, .value none, .value none, .value none, .value (some 20), .value (some 10),
        .value (some 30), .value none, .entries [(4, 40), (1, 11)], .value none] ∧
    (runAll Operation.run comeAgain (fresh (some 2))).2.view.entries = [(4, 44), (1, 12)] ∧
    (runAll Operation.run comeAgain (fresh (some 2))).2.view.next? 4 = some 1 ∧
    (runAll Operation.run comeAgain (fresh (some 2))).2.view.size = 2 := by
  obtain ⟨hanswers, hview, -⟩ := runAll_eq_runEntries (some 2) comeAgain
  rw [hanswers, hview]
  decide

end OrderedMap

end PmacPoll
