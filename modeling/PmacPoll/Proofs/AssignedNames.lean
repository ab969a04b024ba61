import PmacPoll.Proofs.AnsweredRefreshes
import PmacPoll.Proofs.StoredReplies

/-!
# Which names a refresh assigns

A name and a line belong together by their places: the name is so many words into some command, the
line so many lines into the reply to it, `AssignedAt`. After a refresh without an error every name
that is a word holds a line that came for it, and if no other name has it among its words there is
just one place that this line can have come from, `Assigned`.

Nothing of that holds of a name with a blank in it, or of the empty one. No command has it among its
words, so no line comes for it and the refresh does not fail for it: `missed`.
-/

namespace PmacPoll

/-! ### Places in a list of lists -/

section

variable {α : Type} [BEq α] [LawfulBEq α] {a : α}

/-- What is in a list once is there in one place. -/
private theorem getElem?_unique {l : List α} (hcount : l.count a ≤ 1) {i j : Nat}
    (hi : l[i]? = some a) (hj : l[j]? = some a) : i = j := by
  -- it is the first element, and then not among the others, or it is one of these
  induction l generalizing i j with
  | nil => exact nomatch hi
  | cons b more ih =>
    -- a head that is the element leaves no count for the others
    have hmem : ∀ {k : Nat}, more[k]? = some a → b ≠ a := by
      rintro k hk rfl
      rw [List.count_cons_self] at hcount
      have hpos := List.count_pos_iff.mpr (List.mem_of_getElem? hk)
      omega
    -- the two places are both at the head, or both behind it
    cases i with
    | zero =>
      cases j with
      | zero => rfl
      | succ j => exact absurd (Option.some.inj hi) (hmem hj)
    | succ i =>
      cases j with
      | zero => exact absurd (Option.some.inj hj) (hmem hi)
      | succ j =>
        have hmore : more.count a ≤ 1 := Nat.le_trans List.count_le_count_cons hcount
        rw [ih hmore hi hj]

/-- What is there once in some lists together has one place, in one of them. -/
private theorem place_unique {lists : List (List α)} (hcount : lists.flatten.count a ≤ 1)
    {l l' : List α} {i i' j j' : Nat} (hi : lists[i]? = some l) (hj : l[j]? = some a)
    (hi' : lists[i']? = some l') (hj' : l'[j']? = some a) : i = i' ∧ j = j' := by
  induction lists generalizing i i' with
  | nil => exact nomatch hi
  | cons first more ih =>
    rw [List.flatten_cons, List.count_append] at hcount
    -- not both in the first list and in a later one
    have hapart : ∀ {k : Nat} {l₂ : List α}, more[k]? = some l₂ → a ∈ l₂ → a ∉ first := by
      intro k l₂ hk hlater hfirst
      have hhere := List.count_pos_iff.mpr hfirst
      have hthere := List.count_pos_iff.mpr
        (List.mem_flatten_of_mem (List.mem_of_getElem? hk) hlater)
      omega
    -- the two places are in the same list
    cases i with
    | zero =>
      obtain rfl := Option.some.inj hi
      cases i' with
      | zero =>
        obtain rfl := Option.some.inj hi'
        exact ⟨rfl, getElem?_unique (Nat.le_trans (Nat.le_add_right ..) hcount) hj hj'⟩
      | succ i' =>
        exact absurd (List.mem_of_getElem? hj) (hapart hi' (List.mem_of_getElem? hj'))
    | succ i =>
      cases i' with
      | zero =>
        obtain rfl := Option.some.inj hi'
        exact absurd (List.mem_of_getElem? hj') (hapart hi (List.mem_of_getElem? hj))
      | succ i' =>
        obtain ⟨rfl, rfl⟩ := ih (Nat.le_trans (Nat.le_add_left ..) hcount) hi hi'
        exact ⟨rfl, rfl⟩

end

namespace VariableTable

variable {t : VariableTable}

/-- A name that no other has among its words is asked for once. -/
private theorem count_words_le_one (hnodup : t.names.Nodup) {name : String} (hname : name ∈ t.names)
    (hword : Text.IsWord name)
    (halone : ∀ other ∈ t.names, name ∈ Text.words other → other = name) :
    (t.names.flatMap Text.words).count name ≤ 1 := by
  obtain ⟨before, after, hsplit⟩ := List.append_of_mem hname
  rw [hsplit] at hnodup halone ⊢
  obtain ⟨-, hafter, hbefore⟩ := List.nodup_append.mp hnodup
  -- the words of other names do not have it among them
  have hnone : ∀ others : List String, (∀ other ∈ others, other ∈ before ++ name :: after) →
      name ∉ others → (others.flatMap Text.words).count name = 0 := by
    intro others hothers hnot
    refine List.count_eq_zero.mpr fun hmem => ?_
    obtain ⟨other, hother, hwords⟩ := List.mem_flatMap.mp hmem
    exact hnot (halone other (hothers other hother) hwords ▸ hother)
  rw [List.flatMap_append, List.flatMap_cons, Text.words_of_isWord hword, List.count_append,
    List.count_append, hnone before (fun other h => List.mem_append_left _ h)
      (fun h => hbefore name h name List.mem_cons_self rfl),
    hnone after (fun other h => List.mem_append_right _ (List.mem_cons_of_mem name h))
      (List.nodup_cons.mp hafter).1]
  simp

end VariableTable

namespace Gateway

open Stored

/-! ### The place of a line -/

/-- A name is the `j`-th word of the `i`-th command. -/
def AskedAt (commands : List String) (name : String) (i j : Nat) : Prop :=
  ∃ command, commands[i]? = some command ∧ (Text.words command)[j]? = some name

/-- A line came for a name in the `j`-th place of the `i`-th command. -/
def AssignedAt (replies : List (String × Reply)) (name line : String) (i j : Nat) : Prop :=
  ∃ r, replies[i]? = some r ∧ (Text.words r.1)[j]? = some name ∧
    (Text.endedLines r.2.storedText)[j]? = some line

/-- A line came for a name in one place only. -/
def AssignedOnce (replies : List (String × Reply)) (name line : String) : Prop :=
  ∃ i j, AssignedAt replies name line i j ∧
    ∀ line' i' j', AssignedAt replies name line' i' j' → i' = i ∧ j' = j

variable {replies : List (String × Reply)} {name line line' : String} {i i' j j' : Nat}

/-- A line came for a name just if it has a place. -/
theorem cameFor_iff : CameFor replies name line ↔ ∃ i j, AssignedAt replies name line i j := by
  constructor
  · rintro ⟨r, hr, hpair⟩
    obtain ⟨i, hi⟩ := List.getElem?_of_mem hr
    obtain ⟨j, hj⟩ := List.getElem?_of_mem hpair
    exact ⟨i, j, r, hi, List.getElem?_zip_eq_some.mp hj⟩
  · rintro ⟨i, j, r, hi, hj⟩
    exact ⟨r, List.mem_of_getElem? hi, List.mem_of_getElem? (List.getElem?_zip_eq_some.mpr hj)⟩

/-- The name of a line was asked for in the place of the line. -/
theorem AssignedAt.asked (h : AssignedAt replies name line i j) :
    AskedAt (replies.map Prod.fst) name i j := by
  obtain ⟨r, hr, hname, -⟩ := h
  refine ⟨r.1, ?_, hname⟩
  rw [List.getElem?_map, hr]
  rfl

/-- A line comes only for a word. -/
private theorem AssignedAt.isWord (h : AssignedAt replies name line i j) : Text.IsWord name := by
  obtain ⟨r, -, hname, -⟩ := h
  exact Text.isWord_of_mem_words (List.mem_of_getElem? hname)

/-- A name that is asked for once is asked for in one place. -/
theorem AskedAt.unique {commands : List String}
    (hcount : (commands.flatMap Text.words).count name ≤ 1)
    (h : AskedAt commands name i j) (h' : AskedAt commands name i' j') : i' = i ∧ j' = j := by
  obtain ⟨command, hi, hname⟩ := h
  obtain ⟨command', hi', hname'⟩ := h'
  have hwords : ∀ {k : Nat} {command : String}, commands[k]? = some command →
      (commands.map Text.words)[k]? = some (Text.words command) := by
    intro k command hk
    rw [List.getElem?_map, hk]
    rfl
  rw [List.flatMap_def] at hcount
  exact place_unique hcount (hwords hi') hname' (hwords hi) hname

/-- For a name that is asked for once there is one line at most. -/
theorem Stored.CameFor.unique (hcount : ((replies.map Prod.fst).flatMap Text.words).count name ≤ 1)
    (h : CameFor replies name line) (h' : CameFor replies name line') : line' = line := by
  obtain ⟨i, j, hplace⟩ := cameFor_iff.mp h
  obtain ⟨i', j', hplace'⟩ := cameFor_iff.mp h'
  obtain ⟨rfl, rfl⟩ := AskedAt.unique hcount hplace.asked hplace'.asked
  obtain ⟨r, hr, -, hline⟩ := hplace
  obtain ⟨r', hr', -, hline'⟩ := hplace'
  obtain rfl := Option.some.inj (hr.symm.trans hr')
  exact Option.some.inj (hline'.symm.trans hline)

/-! ### What a refresh assigns -/

/-- What a refresh that got some replies and did not fail leaves of a table. -/
structure Assigned (replies : List (String × Reply)) (before after : VariableTable) : Prop where
  names : after.names = before.names
  /-- No reply reports an error, and each has a line for each word of its command. -/
  clean : ∀ r ∈ replies, Clean r
  /-- A name that is a word holds a line that came for it. -/
  assigned : ∀ name ∈ before.names, Text.IsWord name →
    ∃ i j, AssignedAt replies name (after.read name) i j
  /-- No line came for it in another place, if it is not among the words of another name. -/
  once : ∀ name ∈ before.names, Text.IsWord name →
    (∀ other ∈ before.names, name ∈ Text.words other → other = name) →
    AssignedOnce replies name (after.read name)
  /-- For a name that is no word there is no line, and its value stays. -/
  missed : ∀ name ∈ before.names, ¬ Text.IsWord name → after.read name = before.read name ∧
    ∀ line i j, ¬ AssignedAt replies name line i j

/-- If all names are words, each of them has its one place. -/
private theorem Assigned.each_once {before after : VariableTable}
    (h : Assigned replies before after)
    (hwords : ∀ name ∈ before.names, Text.IsWord name) :
    ∀ name ∈ before.names, AssignedOnce replies name (after.read name) := by
  intro name hname
  refine h.once name hname (hwords name hname) fun other hother hmem => ?_
  rw [Text.words_of_isWord (hwords other hother)] at hmem
  exact (List.mem_singleton.mp hmem).symm

/-- The replies of a refresh without an error, stored, assign as said. -/
private theorem assigned_of_ok {s : Stored} (hbuilt : s.table.Built)
    (hcommands : replies.map Prod.fst = s.table.commands)
    (hok : (s.replies replies).error = none) :
    Assigned replies s.table (s.replies replies).table := by
  have hkept := VariableTable.kept_of_built hbuilt
  have hasked : (replies.map Prod.fst).flatMap Text.words = s.table.names.flatMap Text.words := by
    rw [hcommands, VariableTable.flatMap_words_commands hkept]
  -- every word is in some command, and each command has a line for each of its words
  have hassigned : ∀ name ∈ s.table.names, Text.IsWord name →
      ∃ i j, AssignedAt replies name ((s.replies replies).table.read name) i j := by
    intro name hname hword
    refine cameFor_iff.mp (read_replies_of_ok hkept hok hname ?_)
    have hmem : name ∈ (replies.map Prod.fst).flatMap Text.words := by
      rw [hasked, List.mem_flatMap]
      refine ⟨name, hname, ?_⟩
      rw [Text.words_of_isWord hword]
      exact List.mem_singleton_self name
    obtain ⟨command, hcommand, hmem⟩ := List.mem_flatMap.mp hmem
    obtain ⟨r, hr, rfl⟩ := List.mem_map.mp hcommand
    exact ⟨r, hr, hmem⟩
  refine ⟨(kept_replies hkept replies).2, (error_replies_eq_none_iff.mp hok).2, hassigned, ?_, ?_⟩
  · -- the place is the only one, as the commands have the name once
    intro name hname hword halone
    obtain ⟨i, j, hplace⟩ := hassigned name hname hword
    refine ⟨i, j, hplace, fun line i' j' hother => AskedAt.unique ?_ hplace.asked hother.asked⟩
    rw [hasked]
    exact VariableTable.count_words_le_one (OrderedMap.nodup_keys hkept.coherent) hname hword halone
  · -- no command asks for a name that is no word
    intro name _ hnot
    refine ⟨read_replies_of_none hkept fun line hcame => ?_, fun line i j hplace =>
      hnot hplace.isWord⟩
    obtain ⟨i, j, hplace⟩ := cameFor_iff.mp hcame
    exact hnot hplace.isWord

variable {σ κ ω : Type} [Transport σ] [Listener κ ω]

/-- **What success of a refresh means.** A refresh of a tier with names is carried out and does not
    fail. Then it got a reply to each command, none of them with a report or with another number of
    lines than its command has words. Each name that is a word holds a line of them, from one place
    only if no other name has it among its words; each other name holds what it held before. So if
    all names are words, each of them got its line from one place. -/
theorem updateFrom_assigned {taken : Nat} {tier : Tier} {g g' : Gateway σ κ ω}
    (hbuilt : (g.table tier).Built) (hcarried : (g.suppresses tier).1 = false)
    (hnames : (g.table tier).names ≠ []) (h : updateFrom taken tier g = .ok () g') :
    ∃ replies, replies.map Prod.fst = (g.table tier).commands ∧
      Channel.Exchanged g.channel replies g'.channel ∧
      Assigned replies (g.table tier) (g'.table tier) ∧
      ((∀ name ∈ (g.table tier).names, Text.IsWord name) → ∀ name ∈ (g.table tier).names,
        AssignedOnce replies name ((g'.table tier).read name)) := by
  obtain ⟨g₁, ⟨locks, count, rfl⟩, hcases⟩ := updateFrom_ok h
  -- the refresh is not suppressed and has commands, so it has stored the replies
  rcases hcases with ⟨hsuppressed, -⟩ | ⟨-, hnone, -⟩ |
    ⟨-, -, g₂, started, replies, hall, hok, rfl⟩
  · rw [hcarried] at hsuppressed
    exact absurd hsuppressed Bool.false_ne_true
  · have hkept := VariableTable.kept_of_built hbuilt
    exact absurd ((VariableTable.commands_eq_nil_iff hkept).mp hnone) hnames
  · -- the replies are stored in the table that the refresh has found
    obtain ⟨hcommands, hexchanged, -⟩ := transactAll_ok hall
    have hdata := transactAll_sameData (g.table tier).commands
      { g with locks, suppressCount := count }
    rw [hall] at hdata
    have htable : g₂.table tier = g.table tier := hdata.table_eq tier
    have hstored : ((g₂.completed tier started replies).unlocked).table tier =
        (g₂.stored tier replies).table := g₂.table_completed tier started replies
    have hassigned := assigned_of_ok (s := ⟨g₂.table tier, g₂.counters, none⟩)
      (htable ▸ hbuilt) (htable ▸ hcommands) hok
    refine ⟨replies, hcommands, hexchanged, ?_⟩
    rw [hstored, ← htable]
    exact ⟨hassigned, hassigned.each_once⟩

/-- Two names, of which the first has a blank in it, and a device that answers the three words of
    their command with three lines. -/
def spacedGateway : Gateway Device ChangeLog Change :=
  scriptedGateway (VariableTable.empty.addAll ["P1 P2", "P3"]) [Utf8.encode "1\r2\r3\r\x06"]

/-- The second name is assigned from its one place, and the first one, which has a blank, keeps its
    value. -/
theorem updateFrom_assigned_spaced : ∃ g', updateFrom 0 .fast spacedGateway = .ok () g' ∧
    (g'.table .fast).read "P1 P2" = (spacedGateway.table .fast).read "P1 P2" ∧
    ∃ replies, AssignedOnce replies "P3" ((g'.table .fast).read "P3") := by
  have hbuilt : (spacedGateway.table .fast).Built := VariableTable.Built.empty.addAll _
  obtain ⟨hnames, hcommands⟩ : (spacedGateway.table .fast).names = ["P1 P2", "P3"] ∧
      (spacedGateway.table .fast).commands = ["P1 P2 P3"] :=
    VariableTable.addAll_pair (by decide)
  -- the one command is answered with three lines
  obtain ⟨c, hexchanged⟩ : ∃ c, Channel.Exchanged spacedGateway.channel
      [("P1 P2 P3", Reply.scan 1024 (Utf8.encode "1\r2\r3\r\x06"))] c := by
    have hscript := exchanged_scriptedGateway (spacedGateway.table .fast) (by rw [hcommands]; rfl)
      (show ∀ answer ∈ [Utf8.encode "1\r2\r3\r\x06"], _ by decide)
    rwa [hcommands] at hscript
  obtain ⟨g', -, -, hrun⟩ := updateFrom_of_exchanged 0 .fast (g := spacedGateway) rfl rfl
    (by simp [spacedGateway, scriptedGateway]) (by rw [hcommands]; rfl) hexchanged
  rw [Gateway.stored, error_replies_eq_none_iff.mpr ⟨rfl, by decide⟩] at hrun
  obtain ⟨replies, -, -, hassigned, -⟩ :=
    updateFrom_assigned hbuilt rfl (by rw [hnames]; exact List.cons_ne_nil _ _) hrun
  refine ⟨g', hrun, ?_, replies, ?_⟩
  · -- the first name is no word, and the second is a word of no other name
    exact (hassigned.missed "P1 P2" (by rw [hnames]; decide) (by decide)).1
  · refine hassigned.once "P3" (by rw [hnames]; decide) (by decide) fun other hother hmem => ?_
    rw [hnames] at hother
    rcases List.mem_cons.mp hother with rfl | hother
    · exact absurd hmem (by decide)
    · exact List.mem_singleton.mp hother

end Gateway

end PmacPoll
