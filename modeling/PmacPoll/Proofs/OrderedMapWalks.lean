import PmacPoll.Proofs.OrderedMapGaps

/-!
# Walking over an ordered map that changes

A walk starts at the first key of a map and goes on by asking for the key after the one where it
stands. In between keys may be removed, but for that one, and values may be overwritten, by which
the map may be compacted. `Walk` is every walk with what happens in it, one step after another.

A key that is removed goes away from in front of the cursor or from behind it, and nothing else
moves: the keys behind the cursor have been visited, those in front of it come next, and both are
parts of the keys that there were at the start, in their order. This is `Underway`, which every step
keeps, `underway_of_walk`. The main result is `runAll_walks`.
-/

namespace PmacPoll.OrderedMap

open Entries

variable {α β : Type} [BEq α] [Hashable α]

/-- An operation that may be done while a walk stands at a key: it takes that key not away and adds
    none. -/
def Operation.Permitted (current : α) (m : OrderedMap α β) : Operation α β → Prop
  | .insert key _ => m.contains key = true
  | .erase key => (key == current) = false
  | .get? _ | .replace _ _ | .contains _ | .mapValues _ => True
  | .clear => False

/-- What happens in a walk. -/
inductive Event (α β : Type) where
  | visit (key : α)
  | change (op : Operation α β)

/-- The keys that are visited. -/
def visits (events : List (Event α β)) : List α :=
  events.filterMap fun
    | .visit key => some key
    | .change _ => none

/-- The visit of the key that the cursor has come to, if it is not at the end. -/
def arrival (cursor : Option α) : List (Event α β) :=
  cursor.toList.map .visit

/-- A walk on a map: how many steps were made, what has happened, where the cursor is, and what the
    map has become. -/
inductive Walk (first : OrderedMap α β) :
    Nat → List (Event α β) → Option α → OrderedMap α β → Prop where
  | start : Walk first 0 (arrival first.first?) first.first? first
  | change {steps : Nat} {events : List (Event α β)} {current : α} {m : OrderedMap α β}
      {op : Operation α β} : Walk first steps events (some current) m → op.Permitted current m →
      Walk first steps (events ++ [.change op]) (some current) (op.run m).2
  | step {steps : Nat} {events : List (Event α β)} {current : α} {m : OrderedMap α β} :
      Walk first steps events (some current) m →
      Walk first (steps + 1) (events ++ arrival (m.next? current)) (m.next? current) m

/-- What is sure of a walk, however far it is. -/
structure Surveys (first : OrderedMap α β) (steps : Nat) (events : List (Event α β))
    (cursor : Option α) (m : OrderedMap α β) : Prop where
  /-- A walk ends: it has no more steps than there were keys. -/
  ends : steps ≤ first.size
  order : (visits events).Sublist first.keys
  once : (visits events).Pairwise fun a b => (a == b) = false
  /-- A key that was removed is not visited. -/
  removed : ∀ before key after, events = before ++ .change (.erase key) :: after →
    ∀ k, .visit k ∈ after → (key == k) = false
  /-- At the end every key that is still there was visited, and once only. -/
  complete : cursor = none → ∀ key, m.contains key = true →
    (visits events).countP (· == key) = 1
  /-- A walk on a map that is left as it is visits all keys. -/
  unchanged : cursor = none → (∀ op, .change op ∉ events) → visits events = first.keys

variable {m first : OrderedMap α β} {steps : Nat} {events : List (Event α β)}
  {cursor : Option α} {current : α}

/-! ### Visits -/

omit [BEq α] [Hashable α] in
/-- The visits of two parts of a walk are those of the one and then those of the other. -/
private theorem visits_append (events more : List (Event α β)) :
    visits (events ++ more) = visits events ++ visits more :=
  List.filterMap_append

omit [BEq α] [Hashable α] in
/-- To arrive somewhere is to visit the key there, if there is one. -/
private theorem visits_arrival (cursor : Option α) :
    visits (arrival cursor : List (Event α β)) = cursor.toList := by
  cases cursor <;> rfl

omit [BEq α] [Hashable α] in
/-- To arrive somewhere changes nothing. -/
private theorem change_not_mem_arrival (op : Operation α β) : .change op ∉ arrival cursor := by
  cases cursor <;> simp [arrival]

/-! ### Keys -/

/-- Does an operation leave a key in its place? -/
def Operation.spares : Operation α β → α → Bool
  | .erase key, k => !k == key
  | _, _ => true

/-- The first key is the head of the keys. -/
private theorem first?_eq_head?_keys (m : OrderedMap α β) : m.first? = m.keys.head? := by
  rw [first?_eq_head?, keys, List.head?_map]

/-- The same key does not come twice. -/
theorem distinct_keys [EquivBEq α] (hm : m.Coherent) :
    m.keys.Pairwise fun a b => (a == b) = false :=
  List.pairwise_map.mpr (distinct_toList hm)

/-- The key after the one that stands behind some others. -/
private theorem next?_of_keys [EquivBEq α] (hm : m.Coherent) {behind ahead : List α}
    (hkeys : m.keys = behind ++ current :: ahead) : m.next? current = ahead.head? := by
  obtain ⟨before, rest, hlist, hbefore, hrest⟩ := List.map_eq_append_iff.mp hkeys
  obtain ⟨⟨k, value⟩, after, rfl, rfl, rfl⟩ := List.map_eq_cons_iff.mp hrest
  have hdistinct := distinct_toList hm
  rw [hlist, List.pairwise_append] at hdistinct
  have habsent : Absent k before :=
    fun entry hentry => hdistinct.2.2 entry hentry (k, value) List.mem_cons_self
  rw [next?_eq_next? hm, hlist, next?_split value BEq.rfl habsent, List.head?_map]

/-- A permitted operation takes away the key that it removes, and does nothing else to the keys. -/
private theorem keys_run [EquivBEq α] [LawfulHashable α] (hm : m.Coherent) {op : Operation α β}
    (hop : op.Permitted current m) : (op.run m).2.keys = m.keys.filter op.spares := by
  have hall : m.keys.filter (fun _ => true) = m.keys := List.filter_eq_self.mpr fun _ _ => rfl
  rw [keys, (run_eq_runEntries hm op).2.2]
  cases op with
  | insert key value =>
    -- a key that is inserted was there already, so that its value is overwritten
    have hany : m.toList.any (·.1 == key) = true := contains_eq_any hm key ▸ hop
    simp only [Operation.runEntries, put, if_pos hany, keys_overwrite]
    exact hall.symm
  | replace key value =>
    simp only [Operation.runEntries, keys_overwrite]
    exact hall.symm
  | erase key =>
    rw [keys, List.filter_map]
    rfl
  | mapValues f =>
    simp only [Operation.runEntries, List.map_map]
    exact hall.symm
  | get? key | contains key => exact hall.symm
  | clear => exact hop.elim

/-! ### One step -/

/-- The keys of a map that a walk has left behind it, with the one where it stands, and those in
    front of it. -/
structure Parted (start visited keys behind ahead : List α) : Prop where
  split : keys = behind ++ ahead
  /-- What is behind was visited. -/
  known : behind.Sublist visited
  /-- What was visited and what is to come stood in this order at the start. -/
  ordered : (visited ++ ahead).Sublist start

/-- The cursor stands at the last key that is behind it, or there is none in front of it. -/
def PointsAt (behind ahead : List α) : Option α → Prop
  | some current => ∃ before, behind = before ++ [current]
  | none => ahead = []

/-- What a walk has done, and what is left for it to do. -/
structure Underway (first : OrderedMap α β) (steps : Nat) (events : List (Event α β))
    (cursor : Option α) (m : OrderedMap α β) : Prop where
  coherent : m.Coherent
  place : ∃ behind ahead, Parted first.keys (visits events) m.keys behind ahead ∧
    PointsAt behind ahead cursor
  /-- Every step but the last one comes to a key. -/
  counted : (visits events).length = steps + cursor.toList.length
  gone : ∀ key, .change (.erase key) ∈ events → ∀ k ∈ m.keys, (key == k) = false
  removed : events.Pairwise fun earlier later =>
    ∀ key k, earlier = .change (.erase key) → later = .visit k → (key == k) = false
  unchanged : (∀ op, .change op ∉ events) → m = first

section

variable {start visited keys behind ahead : List α}

omit [BEq α] [Hashable α]

/-- At the start all keys lie ahead. -/
private theorem parted_start (keys : List α) : Parted keys [] keys [] keys :=
  ⟨rfl, List.Sublist.refl [], List.Sublist.refl keys⟩

/-- The cursor comes to the first key in front of it. -/
private theorem Parted.advance (h : Parted start visited keys behind ahead) : ∃ behind' ahead',
    Parted start (visited ++ ahead.head?.toList) keys behind' ahead' ∧
      PointsAt behind' ahead' ahead.head? := by
  -- there is no key ahead, or the first of them is visited and is behind from then on
  cases ahead with
  | nil =>
    refine ⟨behind, [], ⟨h.split, ?_, ?_⟩, rfl⟩
    · exact h.known.trans (List.sublist_append_left ..)
    · simpa using h.ordered
  | cons next rest =>
    refine ⟨behind ++ [next], rest, ⟨?_, h.known.append_right [next], ?_⟩, behind, rfl⟩
    · rw [h.split, List.append_assoc, List.singleton_append]
    · have hordered := h.ordered
      rwa [List.append_cons] at hordered

/-- Keys that go leave the others as they are. -/
theorem Parted.filter (h : Parted start visited keys behind ahead) (p : α → Bool) :
    Parted start visited (keys.filter p) (behind.filter p) (ahead.filter p) where
  split := by rw [h.split, List.filter_append]
  known := List.filter_sublist.trans h.known
  ordered := (List.filter_sublist.append_left visited).trans h.ordered

/-- The key where the cursor stands is still there. -/
theorem PointsAt.filter {p : α → Bool} (h : PointsAt behind ahead (some current))
    (hp : p current = true) : PointsAt (behind.filter p) (ahead.filter p) (some current) := by
  obtain ⟨before, rfl⟩ := h
  refine ⟨before.filter p, ?_⟩
  rw [List.filter_append, List.filter_cons_of_pos hp, List.filter_nil]

end

/-- A walk sets out with nothing behind it. -/
private theorem underway_start (hm : first.Coherent) :
    Underway first 0 (arrival first.first?) first.first? first := by
  rw [first?_eq_head?_keys]
  refine ⟨hm, ?_, ?_, ?_, ?_, fun _ => rfl⟩
  · rw [visits_arrival]
    exact (parted_start first.keys).advance
  · rw [visits_arrival, Nat.zero_add]
  · exact fun key hkey => absurd hkey (change_not_mem_arrival _)
  · cases first.keys.head? <;> simp [arrival]

variable [EquivBEq α]

/-- The key at which the walk stands is spared. -/
private theorem Operation.Permitted.spares {op : Operation α β} (h : op.Permitted current m) :
    op.spares current = true := by
  cases op with
  | erase key =>
    have hne : (current == key) = false := BEq.symm_false h
    rw [Operation.spares, hne, Bool.not_false]
  | _ => rfl

/-- A change takes keys away from both sides of the walk, and leaves the cursor where it is. -/
theorem Underway.change [LawfulHashable α] (h : Underway first steps events (some current) m)
    {op : Operation α β} (hop : op.Permitted current m) :
    Underway first steps (events ++ [.change op]) (some current) (op.run m).2 := by
  have hkeys := keys_run h.coherent hop
  have hvisits : visits (events ++ [.change op]) = visits events := by
    rw [visits_append]
    exact List.append_nil _
  obtain ⟨behind, ahead, hparted, hpoints⟩ := h.place
  refine ⟨(run_eq_runEntries h.coherent op).1, ?_, ?_, ?_, ?_, ?_⟩
  · rw [hvisits, hkeys]
    exact ⟨_, _, hparted.filter op.spares, hpoints.filter hop.spares⟩
  · rw [hvisits]
    exact h.counted
  · intro key hkey k hk
    rw [hkeys] at hk
    -- a key that is gone was removed before, or by this very change
    obtain ⟨hmem, hspared⟩ := List.mem_filter.mp hk
    rcases List.mem_append.mp hkey with hbefore | hlast
    · exact h.gone key hbefore k hmem
    · obtain rfl := Event.change.inj (List.mem_singleton.mp hlast)
      rw [Operation.spares, Bool.not_eq_true'] at hspared
      exact BEq.symm_false hspared
  · refine List.pairwise_append.mpr ⟨h.removed, List.pairwise_singleton .., ?_⟩
    intro earlier _ later hlater key k _ hvisit
    exact nomatch (List.mem_singleton.mp hlater).symm.trans hvisit
  · exact fun hnone => absurd (List.mem_append_right events (List.mem_singleton_self _)) (hnone op)

/-- A step moves the first key ahead behind the walk. -/
theorem Underway.step (h : Underway first steps events (some current) m) :
    Underway first (steps + 1) (events ++ arrival (m.next? current)) (m.next? current) m := by
  obtain ⟨behind, ahead, hparted, before, rfl⟩ := h.place
  -- the cursor stands between what is behind and what is ahead
  have hkeys : m.keys = before ++ current :: ahead := by
    rw [hparted.split, List.append_assoc, List.singleton_append]
  have hnext := next?_of_keys h.coherent hkeys
  rw [hnext]
  have hvisits : visits (events ++ arrival ahead.head?) = visits events ++ ahead.head?.toList := by
    rw [visits_append, visits_arrival]
  refine ⟨h.coherent, ?_, ?_, ?_, ?_, ?_⟩
  · rw [hvisits]
    exact hparted.advance
  · have hcounted := h.counted
    rw [hvisits, List.length_append, hcounted]
    rfl
  · intro key hkey
    rcases List.mem_append.mp hkey with hbefore | hlast
    · exact h.gone key hbefore
    · exact absurd hlast (change_not_mem_arrival _)
  · refine List.pairwise_append.mpr ⟨h.removed, ?_, ?_⟩
    · cases ahead.head? <;> simp [arrival]
    · intro earlier hearlier later hlater key k hkey hk
      subst hkey hk
      -- the key that is next is in the map, and what was removed is not
      have hcursor : k ∈ ahead.head? := by simpa [arrival] using hlater
      have hmem : k ∈ m.keys := by
        rw [hkeys]
        exact List.mem_append_right _ (List.mem_cons_of_mem _ (List.mem_of_mem_head? hcursor))
      exact h.gone key hearlier k hmem
  · exact fun hnone => h.unchanged fun op hop => hnone op (List.mem_append_left _ hop)

/-! ### Walks -/

/-- However a walk goes on, it is underway. -/
theorem underway_of_walk [LawfulHashable α] (hm : first.Coherent)
    (h : Walk first steps events cursor m) : Underway first steps events cursor m := by
  induction h with
  | start => exact underway_start hm
  | change _ hop ih => exact ih.change hop
  | step _ ih => exact ih.step

omit [Hashable α] in
/-- A key that is there is one of a list in which no key comes twice just once. -/
private theorem countP_eq_one {keys : List α} {key k : α}
    (hdistinct : keys.Pairwise fun a b => (a == b) = false) (hk : k ∈ keys)
    (hsame : (k == key) = true) : keys.countP (· == key) = 1 := by
  obtain ⟨before, after, rfl⟩ := List.append_of_mem hk
  obtain ⟨-, hafter, hbefore⟩ := List.pairwise_append.mp hdistinct
  -- the other keys before it and after it are distinct from it
  have hfront : before.countP (· == key) = 0 := by
    refine List.countP_eq_zero.mpr fun a ha => ?_
    rw [← BEq.congr_right hsame, hbefore a ha k List.mem_cons_self]
    exact Bool.false_ne_true
  have hrest : after.countP (· == key) = 0 := by
    refine List.countP_eq_zero.mpr fun a ha => ?_
    rw [← BEq.congr_right hsame, BEq.symm_false ((List.pairwise_cons.mp hafter).1 a ha)]
    exact Bool.false_ne_true
  rw [List.countP_append, List.countP_cons, hfront, hrest, if_pos hsame]

/-- A walk that is underway surveys the map. -/
private theorem Underway.surveys [LawfulHashable α] (hfirst : first.Coherent)
    (h : Underway first steps events cursor m) : Surveys first steps events cursor m := by
  obtain ⟨behind, ahead, hparted, hpoints⟩ := h.place
  have horder : (visits events).Sublist first.keys :=
    (List.sublist_append_left ..).trans hparted.ordered
  have honce : (visits events).Pairwise fun a b => (a == b) = false :=
    (distinct_keys hfirst).sublist horder
  refine ⟨?_, horder, honce, ?_, ?_, ?_⟩
  · have hlength := horder.length_le
    rw [h.counted, keys, List.length_map, ← size_eq_length hfirst] at hlength
    -- each step but the last one visited a key of its own
    omega
  · rintro before key after rfl k hk
    have hlater := (List.pairwise_append.mp h.removed).2.1
    exact (List.pairwise_cons.mp hlater).1 _ hk key k rfl rfl
  · rintro rfl key hkey
    obtain rfl : ahead = [] := hpoints
    rw [contains_eq_any h.coherent, List.any_eq_true] at hkey
    obtain ⟨entry, hentry, hsame⟩ := hkey
    have hmem : entry.1 ∈ m.keys := List.mem_map_of_mem hentry
    rw [hparted.split, List.append_nil] at hmem
    -- all keys that are left lie behind, and what is behind was visited
    exact countP_eq_one honce (hparted.known.subset hmem) hsame
  · rintro rfl hnone
    obtain rfl : ahead = [] := hpoints
    obtain rfl := h.unchanged hnone
    have hall := hparted.split
    rw [List.append_nil] at hall
    -- visits are a sublist of the keys, with as many elements
    exact horder.eq_of_length_le (hall ▸ hparted.known.length_le)

/-- Every walk comes to its end if it goes on. -/
private theorem exists_end [LawfulHashable α] (hfirst : first.Coherent)
    (h : Walk first steps events cursor m) :
    ∃ steps' later, Walk first steps' (events ++ later) none m := by
  -- on the number of steps that are left
  induction hleft : first.size - steps using Nat.strongRecOn generalizing steps events cursor with
  | ind left ih =>
    cases cursor with
    | none => exact ⟨steps, [], by rwa [List.append_nil]⟩
    | some current =>
      have hends := ((underway_of_walk hfirst h.step).surveys hfirst).ends
      obtain ⟨steps', later, hlater⟩ := ih _ (by omega) h.step rfl
      rw [List.append_assoc] at hlater
      exact ⟨steps', _, hlater⟩

/-! ### Walking in one go -/

/-- A walk from a key gives that key and those behind it. -/
private theorem walkFrom_eq (hm : m.Coherent) {behind ahead : List α}
    (hkeys : m.keys = behind ++ ahead)
    {limit : Nat} (hlimit : ahead.length ≤ limit) : m.walkFrom limit ahead.head? = ahead := by
  -- on the keys ahead, of which each step takes the first one behind
  induction ahead generalizing behind limit with
  | nil => cases limit <;> rfl
  | cons key rest ih =>
    cases limit with
    | zero => exact nomatch hlimit
    | succ limit =>
      have hrest : m.keys = (behind ++ [key]) ++ rest := by
        rw [hkeys, List.append_assoc, List.singleton_append]
      rw [List.head?_cons, walkFrom, next?_of_keys hm hkeys,
        ih hrest (Nat.le_of_succ_le_succ hlimit)]

/-- Walking in one go visits all keys. -/
private theorem walk_eq_keys (hm : m.Coherent) : m.walk = m.keys := by
  have hlimit : m.keys.length ≤ m.slots.size := by
    rw [size_slots, keys, List.length_map]
    exact Nat.le_add_left ..
  rw [walk, first?_eq_head?_keys]
  exact walkFrom_eq hm (List.nil_append _).symm hlimit

/-- **A cursor survives changes.** Take any map that was made by operations, and a walk on it
    between the steps of which any keys but the one where it stands are removed and values are
    overwritten. The walk ends, visits keys in their order and none twice, none after it was
    removed, and of those that are still there at the end none is left out. On a map that is left as
    it is it visits exactly its keys. -/
theorem runAll_walks [LawfulHashable α] (capacity : Option Nat) (ops : List (Operation α β)) :
    let first := (runAll Operation.run ops (fresh capacity)).2
    first.walk = first.keys ∧
    ∀ steps events cursor m, Walk first steps events cursor m →
      Surveys first steps events cursor m ∧
      ∃ steps' later, Walk first steps' (events ++ later) none m := by
  intro first
  have hfirst : first.Coherent := (runAll_of_coherent (coherent_fresh capacity) ops).1
  exact ⟨walk_eq_keys hfirst, fun steps events cursor m h =>
    ⟨(underway_of_walk hfirst h).surveys hfirst, exists_end hfirst h⟩⟩

/-- Seven keys, of which two are removed again. -/
def sevenKeys : List (Operation Nat Nat) :=
  [.insert 1 10, .insert 2 20, .insert 3 30, .insert 4 40, .insert 5 50, .insert 6 60,
    .insert 7 70, .erase 2, .erase 4]

/-- What is done when a walk on them has come to the second one: the last value is overwritten, and
    so many keys go that the map is compacted. -/
def changesAtThree : List (Operation Nat Nat) :=
  [.insert 7 71, .erase 1, .erase 5, .erase 6]

/-- A walk on them with these changes comes to its end behind the third key. -/
private theorem walk_of_sevenKeys {first : OrderedMap Nat Nat} (hfirst : first.Coherent)
    (hentries : first.toList = [(1, 10), (3, 30), (5, 50), (6, 60), (7, 70)]) :
    ∃ events, Walk first 3 events none (runAll Operation.run changesAtThree first).2 ∧
      visits events = [1, 3, 7] := by
  obtain ⟨hlast, -, hleft⟩ := runAll_of_coherent hfirst changesAtThree
  rw [hentries] at hleft
  have hchanges : (runAll Operation.run changesAtThree first).2 =
      ((Operation.erase 6).run ((Operation.erase 5).run ((Operation.erase 1).run
        ((Operation.insert 7 71).run first).2).2).2).2 := by
    simp only [changesAtThree, runAll]
  -- the first two steps are made on the map as it was
  have hat1 : first.first? = some 1 := by rw [first?_eq_head?, hentries]; rfl
  have hat3 : first.next? 1 = some 3 := by rw [next?_eq_next? hfirst, hentries]; rfl
  have hinsert : (Operation.insert 7 71).Permitted 3 first := by
    rw [Operation.Permitted, contains_eq_any hfirst, hentries]
    rfl
  have herase {m : OrderedMap Nat Nat} (key : Nat) (hkey : (key == 3) = false) :
      (Operation.erase key).Permitted 3 m := hkey
  have hwalk1 := @Walk.start _ _ _ _ first
  rw [hat1] at hwalk1
  have hwalk3 := hwalk1.step
  rw [hat3] at hwalk3
  have hchanged := (((hwalk3.change hinsert).change (herase 1 rfl)).change (herase 5 rfl)).change
    (herase 6 rfl)
  rw [← hchanges] at hchanged
  clear hchanges
  generalize (runAll Operation.run changesAtThree first).2 = last at *
  -- the others are made after the changes, of which the key at the cursor is no part
  have hat7 : last.next? 3 = some 7 := by rw [next?_eq_next? hlast, hleft]; rfl
  have hend : last.next? 7 = none := by rw [next?_eq_next? hlast, hleft]; rfl
  have hwalk7 := hchanged.step
  rw [hat7] at hwalk7
  have hwalk := hwalk7.step
  rw [hend] at hwalk
  exact ⟨_, hwalk, rfl⟩

/-- The walk stands at the third key while others are removed behind it and in front of it, and
    while the map is compacted: it visits those that are left. -/
theorem runAll_walks_compacted :
    let first := (runAll Operation.run sevenKeys (fresh none)).2
    ∃ events m, Walk first 3 events none m ∧ visits events = [1, 3, 7] ∧
      m.slots = #[some (3, 30), some (7, 71)] ∧ Surveys first 3 events none m := by
  obtain ⟨hfirst, -, hentries⟩ := runAll_of_coherent (coherent_fresh none) sevenKeys
  obtain ⟨events, hwalk, hvisits⟩ := walk_of_sevenKeys hfirst hentries
  refine ⟨events, _, hwalk, hvisits, ?_, ((runAll_walks none sevenKeys).2 _ _ _ _ hwalk).1⟩
  rw [← runAll_append]
  simp [sevenKeys, changesAtThree, runAll, Operation.run, insert, erase, locate?, slot?, fresh,
    empty, compact, toList, Std.HashMap.getElem_insert, Std.HashMap.getElem_erase]

end PmacPoll.OrderedMap
