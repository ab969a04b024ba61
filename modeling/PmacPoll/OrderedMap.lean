import Std.Data.HashMap

/-!
# Maps that keep the order of insertion

Entries stand in slots in the order in which their keys first came; an index says in which slot a
key is. Removing a key leaves its slot vacant, so that no other entry moves, and when more than two
thirds of the slots are vacant the map is compacted. Overwriting keeps the place of a key; a key
that was removed and comes again goes to the end.

The list of entries, `toList`, is what a map stands for: everything but `vacant` can be told from
it.
-/

namespace PmacPoll

/-- A map from `α` to `β` whose entries stand in the order of insertion. -/
structure OrderedMap (α β : Type) [BEq α] [Hashable α] where
  /-- The entries in order, and gaps where entries were removed. -/
  slots : Array (Option (α × β)) := #[]
  /-- The slot of each key. -/
  index : Std.HashMap α Nat := {}
  /-- The number of gaps. -/
  vacant : Nat := 0

namespace OrderedMap

variable {α β : Type} [BEq α] [Hashable α]

/-- The map without entries. -/
def empty : OrderedMap α β := {}

/-- The map without entries, with room for `capacity` of them. -/
def emptyWithCapacity (capacity : Nat) : OrderedMap α β where
  slots := Array.emptyWithCapacity capacity
  index := Std.HashMap.emptyWithCapacity capacity

instance : Inhabited (OrderedMap α β) := ⟨empty⟩

/-- The entry in a slot, if the slot is there and is not vacant. -/
def slot? (m : OrderedMap α β) (i : Nat) : Option (α × β) :=
  m.slots[i]?.join

/-- The slot of a key, and the entry in it. -/
def locate? (m : OrderedMap α β) (key : α) : Option (Nat × α × β) :=
  match m.index[key]? with
  | none => none
  | some i => (m.slot? i).map fun entry => (i, entry)

/-- The number of entries. -/
def size (m : OrderedMap α β) : Nat :=
  m.index.size

/-- Is there no entry? -/
def isEmpty (m : OrderedMap α β) : Bool :=
  m.index.isEmpty

/-- The entries in order. -/
def toList (m : OrderedMap α β) : List (α × β) :=
  m.slots.toList.filterMap id

/-- The keys in order. -/
def keys (m : OrderedMap α β) : List α :=
  m.toList.map (·.1)

/-- The values in the order of their keys. -/
def values (m : OrderedMap α β) : List β :=
  m.toList.map (·.2)

/-- Is there an entry for the key? -/
def contains (m : OrderedMap α β) (key : α) : Bool :=
  m.index.contains key

/-- The value of a key. -/
def get? (m : OrderedMap α β) (key : α) : Option β :=
  (m.locate? key).map (·.2.2)

/-- Overwrites the value of a key that is there, and gives the old value. -/
def replace (m : OrderedMap α β) (key : α) (value : β) : Option β × OrderedMap α β :=
  match m.locate? key with
  | some (i, k, old) => (some old, { m with slots := m.slots.setIfInBounds i (some (k, value)) })
  | none => (none, m)

/-- Overwrites the value of a key in its place, or appends the entry; gives the old value. -/
def insert (m : OrderedMap α β) (key : α) (value : β) : Option β × OrderedMap α β :=
  match m.locate? key with
  | some (i, k, old) => (some old, { m with slots := m.slots.setIfInBounds i (some (k, value)) })
  | none =>
    (none, { m with
      slots := m.slots.push (some (key, value))
      index := m.index.insert key m.slots.size })

/-- Moves the entries together and numbers their keys anew. -/
def compact (m : OrderedMap α β) : OrderedMap α β where
  slots := (m.toList.map some).toArray
  -- The old index has these keys and no others: each is overwritten.
  index := m.toList.zipIdx.foldl (fun index (entry, i) => index.insert entry.1 i) m.index

/-- Removes a key and gives its value. -/
def erase (m : OrderedMap α β) (key : α) : Option β × OrderedMap α β :=
  match m.index[key]? with
  | none => (none, m)
  | some i =>
    match m.slot? i with
    | none => (none, { m with index := m.index.erase key })
    | some (_, value) =>
      -- Compacting only when gaps prevail keeps the cost of a removal constant on average.
      let gapped : OrderedMap α β :=
        { slots := m.slots.setIfInBounds i none
          index := m.index.erase key
          vacant := m.vacant + 1 }
      (some value, if gapped.slots.size * 2 < gapped.vacant * 3 then gapped.compact else gapped)

/-- Overwrites every value, in its place. -/
def mapValues (m : OrderedMap α β) (f : α → β → β) : OrderedMap α β :=
  { m with slots := m.slots.map (Option.map fun (key, value) => (key, f key value)) }

/-- The first key. -/
def first? (m : OrderedMap α β) : Option α :=
  m.slots.toList.findSome? (Option.map (·.1))

/-- The key after a given one. -/
def next? (m : OrderedMap α β) (key : α) : Option α :=
  match m.index[key]? with
  | none => none
  | some i => (m.slots.toList.drop (i + 1)).findSome? (Option.map (·.1))

/-- The keys that are met from a key on by asking for the next one, at most `limit` of them. -/
def walkFrom (m : OrderedMap α β) : (limit : Nat) → Option α → List α
  | 0, _ => []
  | _, none => []
  | limit + 1, some key => key :: m.walkFrom limit (m.next? key)

/-- The keys that are met from the first one on by asking for the next one. -/
def walk (m : OrderedMap α β) : List α :=
  m.walkFrom m.slots.size m.first?

end OrderedMap

end PmacPoll
