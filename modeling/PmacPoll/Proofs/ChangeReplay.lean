import Mathlib.Data.List.Destutter
import PmacPoll.ChangeLog
import PmacPoll.Proofs.TableContents

/-!
# What a change log reports

A change log remembers of each name that it watches what it read last, so that of a notice it
reports the names whose values are not those of the notice before: each once, in the order in which
they first occur in its list, however often it lists them, `changesSince`. Of the first notice it
reports all of them, also those that have no value.

After a notice, what is reported of a name is what is read for it from then on, with repetitions
left out, `valuesOf_replay`. The main result is `replay_reports`.
-/

namespace PmacPoll

/-! ### First occurrences -/

section

variable {α : Type} [DecidableEq α]

/-- What is left out may be left out before or after the repetitions. -/
theorem eraseDups_filter (p : α → Bool) (l : List α) :
    (l.filter p).eraseDups = l.eraseDups.filter p := by
  -- on the length, as the first element takes later ones along
  induction hn : l.length using Nat.strongRecOn generalizing l with
  | ind n ih =>
    cases l with
    | nil => rfl
    | cons a rest =>
      have hshorter : (rest.filter fun b => !b == a).length < n :=
        hn ▸ Nat.lt_succ_of_le (List.length_filter_le ..)
      have hrest := ih _ hshorter _ rfl
      rw [List.filter_filter] at hrest
      rw [List.eraseDups_cons, List.filter_cons, List.filter_cons, ← hrest]
      -- does the first element pass?
      cases hp : p a with
      | true =>
        rw [if_pos rfl, if_pos rfl, List.eraseDups_cons, List.filter_filter]
        simp only [Bool.and_comm]
      | false =>
        -- what is the first element does not pass either
        have hsame : rest.filter (fun b => p b && !b == a) = rest.filter p := by
          refine List.filter_congr fun b _ => ?_
          by_cases hb : b = a
          · rw [hb, hp, Bool.false_and]
          · rw [beq_false_of_ne hb, Bool.not_false, Bool.and_true]
        rw [hsame]
        rfl

/-- Without repetitions the elements are in the order of their first places. -/
theorem pairwise_idxOf_eraseDups (l : List α) :
    l.eraseDups.Pairwise fun a b => l.idxOf a < l.idxOf b := by
  induction l with
  | nil => exact List.Pairwise.nil
  | cons a rest ih =>
    have hlater : ∀ b ∈ rest.eraseDups.filter fun b => !b == a,
        (a :: rest).idxOf b = rest.idxOf b + 1 := by
      intro b hb
      have hne : (b == a) = false := by simpa using (List.mem_filter.mp hb).2
      exact List.idxOf_cons_ne rest (ne_of_beq_false hne).symm
    -- the first element comes before all others, and these are in the order of the rest
    rw [List.eraseDups_cons, eraseDups_filter, List.pairwise_cons]
    refine ⟨fun b hb => ?_, ?_⟩
    · rw [List.idxOf_cons_self, hlater b hb]
      exact Nat.succ_pos _
    · refine (ih.filter _).imp_of_mem fun hb hc hlt => ?_
      rw [hlater _ hb, hlater _ hc]
      exact Nat.succ_lt_succ hlt

end

namespace ChangeLog

/-! ### One notice -/

/-- What is to be reported of a notice that came after another one, or as the first one. -/
def changesSince (names : List String) (previous : Option Notice) (n : Notice) : List Change :=
  (names.eraseDups.filter fun name =>
      previous.map (·.table.read name) ≠ some (n.table.read name)).map
    fun name => ⟨n.tier, name, n.table.read name⟩

/-- The seen values of a log are those of a notice, or there are none. -/
def Remembers (log : ChangeLog) (previous : Option Notice) : Prop :=
  ∀ name ∈ log.names, log.last[name]? = previous.map (·.table.read name)

variable {table : VariableTable} {s : Std.HashMap String String × List (String × String)}

/-- To see a name is to remember its value. -/
private theorem fst_see (name other : String) : (see table s name).1[other]? =
    if other = name then some (table.read name) else s.1[other]? := by
  unfold see
  dsimp only
  by_cases hother : other = name
  · subst hother
    rw [if_pos rfl]
    -- a value that is the same is not written again, and is there already
    split
    · next hsame => exact hsame
    · exact Std.HashMap.getElem?_insert_self
  · rw [if_neg hother]
    split
    · rfl
    · rw [Std.HashMap.getElem?_insert, if_neg (mt beq_iff_eq.mp (Ne.symm hother))]

/-- To see a name is to report it, unless its value is the one that is remembered. -/
private theorem snd_see (name : String) : (see table s name).2 =
    s.2 ++ if s.1[name]? = some (table.read name) then [] else [(name, table.read name)] := by
  unfold see
  dsimp only
  split
  · exact (List.append_nil _).symm
  · rfl

/-- After all names of a list were looked at, what was seen last is what is read now. -/
private theorem fst_foldl_see (names : List String) (other : String) :
    (names.foldl (see table) s).1[other]? =
      if other ∈ names then some (table.read other) else s.1[other]? := by
  induction names generalizing s with
  | nil => rfl
  | cons name rest ih =>
    rw [List.foldl_cons, ih, fst_see]
    by_cases hname : other = name
    · subst hname
      simp
    · simp [hname]

/-- A name that is listed again is seen to be unchanged. -/
private theorem snd_foldl_see (names : List String) : (names.foldl (see table) s).2 =
    s.2 ++ (names.eraseDups.filter fun name => s.1[name]? ≠ some (table.read name)).map
      fun name => (name, table.read name) := by
  -- a name that is seen is skipped when it comes again
  induction names generalizing s with
  | nil => exact (List.append_nil _).symm
  | cons name rest ih =>
    have hlater : rest.eraseDups.filter
          (fun other => (see table s name).1[other]? ≠ some (table.read other)) =
        (rest.eraseDups.filter fun other => !other == name).filter
          (fun other => s.1[other]? ≠ some (table.read other)) := by
      rw [List.filter_filter]
      refine List.filter_congr fun other _ => ?_
      rw [fst_see]
      by_cases hother : other = name
      · simp [hother]
      · simp [hother]
    rw [List.foldl_cons, ih, hlater, snd_see, List.eraseDups_cons, eraseDups_filter,
      List.filter_cons]
    by_cases hsame : s.1[name]? = some (table.read name)
    · simp [hsame]
    · simp [hsame]

variable {log : ChangeLog} {previous : Option Notice}

/-- A notice is answered with the changes since the one before, and remembered. -/
private theorem notify_eq (h : log.Remembers previous) (n : Notice) :
    (Listener.notify log n).2 = changesSince log.names previous n ∧
      (Listener.notify log n).1.names = log.names ∧
      (Listener.notify log n).1.Remembers (some n) := by
  -- what is remembered of a name is what the notice before had for it
  have hchanged : (log.names.foldl (see n.table) (log.last, [])).2 =
      (log.names.eraseDups.filter fun name =>
        previous.map (·.table.read name) ≠ some (n.table.read name)).map
        fun name => (name, n.table.read name) := by
    rw [snd_foldl_see, List.nil_append]
    refine congrArg (List.map _) (List.filter_congr fun name hname => ?_)
    rw [h name (List.mem_eraseDups.mp hname)]
  refine ⟨?_, rfl, fun name hname => ?_⟩
  · show (log.names.foldl (see n.table) (log.last, [])).2.map _ = _
    rw [hchanged, List.map_map]
    rfl
  · exact (fst_foldl_see log.names name).trans (if_pos hname)

/-! ### All notices -/

/-- What a log reports of each of some notices. -/
def replay (log : ChangeLog) : List Notice → List (List Change)
  | [] => []
  | n :: more => (Listener.notify log n).2 :: replay (Listener.notify log n).1 more

variable {names : List String}

/-- Each notice is answered with the changes since the one before. -/
private theorem replay_eq (h : log.Remembers previous) (notices : List Notice) :
    log.replay notices =
      (previous :: notices.map some).zipWith (changesSince log.names) notices := by
  induction notices generalizing log previous with
  | nil => rfl
  | cons n more ih =>
    obtain ⟨hreports, hnames, hremembers⟩ := notify_eq h n
    rw [replay, hreports, ih hremembers, hnames]
    rfl

/-- What some changes say of one name. -/
def valuesOf (name : String) (changes : List Change) : List String :=
  (changes.filter (·.name = name)).map Change.value

/-- The values of a name come from the earlier changes and then from the later ones. -/
@[simp] theorem valuesOf_append (name : String) (changes later : List Change) :
    valuesOf name (changes ++ later) = valuesOf name changes ++ valuesOf name later := by
  rw [valuesOf, List.filter_append, List.map_append]
  rfl

/-- A watched name is reported with its value, if that is not the one before. -/
private theorem valuesOf_changesSince {name : String} (hname : name ∈ names)
    (previous : Option Notice)
    (n : Notice) : valuesOf name (changesSince names previous n) =
      if previous.map (·.table.read name) = some (n.table.read name) then []
      else [n.table.read name] := by
  have hnodup : names.eraseDups.Nodup :=
    (pairwise_idxOf_eraseDups names).imp fun hlt heq =>
      absurd (heq ▸ hlt) (Nat.lt_irrefl (names.idxOf _))
  -- of the names without repetitions one is this name
  have honce : names.eraseDups.filter (fun other => decide (other = name)) = [name] := by
    rw [List.filter_eq, List.count_eq_one_of_mem hnodup (List.mem_eraseDups.mpr hname)]
    rfl
  have hpull : valuesOf name (changesSince names previous n) =
      ((names.eraseDups.filter fun other => decide (other = name)).filter fun other =>
        previous.map (·.table.read other) ≠ some (n.table.read other)).map n.table.read := by
    rw [valuesOf, changesSince, List.filter_map, List.filter_comm, List.map_map]
    rfl
  rw [hpull, honce]
  by_cases hsame : previous.map (·.table.read name) = some (n.table.read name)
  · rw [if_pos hsame, List.filter_cons_of_neg (by simpa using hsame)]
    rfl
  · rw [if_neg hsame, List.filter_cons_of_pos (by simpa using hsame)]
    rfl

/-- After a notice, what is reported of a name continues the value that it had there. -/
theorem valuesOf_replay {p : Notice} (h : log.Remembers (some p)) {name : String}
    (hname : name ∈ log.names) (notices : List Notice) :
    p.table.read name :: valuesOf name (log.replay notices).flatten =
      (notices.map (·.table.read name)).destutter' (· ≠ ·) (p.table.read name) := by
  -- at each notice the value is the one from before, and is not reported, or it is another one
  induction notices generalizing log p with
  | nil => rfl
  | cons n more ih =>
    obtain ⟨hreports, hnames, hremembers⟩ := notify_eq h n
    have hmore := ih hremembers (hnames ▸ hname)
    rw [replay, List.flatten_cons, valuesOf_append, hreports, valuesOf_changesSince hname,
      List.map_cons, List.destutter'_cons _ (fun value next => value ≠ next), ← hmore,
      Option.map_some]
    by_cases hsame : p.table.read name = n.table.read name
    · rw [if_pos (congrArg some hsame), if_neg (not_not_intro hsame), hsame]
      exact hmore
    · rw [if_neg (mt Option.some_inj.mp hsame), if_pos hsame]
      rfl

/-- What a log of some names, new at the first of some notices, reports of each of them. -/
structure Replays (names : List String) (notices : List Notice) (logged : List (List Change)) :
    Prop where
  /-- At each notice the names whose values are not those of the notice before. -/
  each : logged = (none :: notices.map some).zipWith (changesSince names) notices
  /-- Of a watched name, the values that were read for it, without repetitions. -/
  values : ∀ name ∈ names, valuesOf name logged.flatten =
    (notices.map (·.table.read name)).destutter (· ≠ ·)
  /-- The values of names that are not registered are empty. -/
  unregistered : ∀ n ∈ notices, n.table.Built → ∀ name ∉ n.table.names, n.table.read name = ""
  /-- At one notice each name once, in the order of their first places in the list. -/
  inOrder : ∀ changes ∈ logged,
    changes.Pairwise fun c later => names.idxOf c.name < names.idxOf later.name
  /-- Only names of the list. -/
  watched : ∀ changes ∈ logged, ∀ c ∈ changes, c.name ∈ names

/-- **A change log replays to the values that were read.** Whatever the tables at some notices are,
    what a log reports of a name that it watches is what was read for it at each notice, without
    repetitions. Within one notice each change is reported once, however often the name is listed,
    in the order in which the names first occur in the list; other names are never reported. -/
theorem replay_reports (names : List String) (notices : List Notice) :
    Replays names notices (replay { names } notices) := by
  have hfresh : Remembers { names } none := fun name _ => Std.HashMap.getElem?_empty
  have heach := replay_eq hfresh notices
  -- what is logged at a notice are the changes since the one before
  have hnotice : ∀ changes ∈ replay { names } notices, ∃ previous n,
      changes = changesSince names previous n := by
    intro changes hchanges
    obtain ⟨i, hi, rfl⟩ := List.mem_iff_getElem.mp (heach ▸ hchanges)
    exact ⟨_, _, List.getElem_zipWith⟩
  refine ⟨heach, fun name hname => ?_, fun n _ hbuilt name hname => ?_,
    fun changes hchanges => ?_, fun changes hchanges c hc => ?_⟩
  · cases notices with
    | nil => rfl
    | cons n more =>
      obtain ⟨hreports, hnames, hremembers⟩ := notify_eq hfresh n
      -- the first notice reports the name in any case
      rw [replay, List.flatten_cons, valuesOf_append, hreports, valuesOf_changesSince hname,
        if_neg nofun]
      exact valuesOf_replay hremembers (hnames ▸ hname) more
  · exact VariableTable.read_of_not_mem (VariableTable.kept_of_built hbuilt) hname
  · obtain ⟨previous, n, rfl⟩ := hnotice changes hchanges
    exact List.pairwise_map.mpr ((pairwise_idxOf_eraseDups names).filter _)
  · obtain ⟨previous, n, rfl⟩ := hnotice changes hchanges
    obtain ⟨name, hname, rfl⟩ := List.mem_map.mp hc
    exact List.mem_eraseDups.mp (List.mem_of_mem_filter hname)

/-- A table with one name, which has a value. -/
def oneValue : VariableTable :=
  (VariableTable.store (0, VariableTable.empty.add "P1") ("P1", "5")).2

/-- A name that is listed twice gets its value at the second of three notices; another one is never
    registered. -/
theorem replay_reports_twice :
    let logged := replay { names := ["P1", "P2", "P1"] }
      [⟨.fast, .empty, []⟩, ⟨.fast, oneValue, []⟩, ⟨.slow, oneValue, []⟩]
    valuesOf "P1" logged.flatten = ["", "5"] ∧ valuesOf "P2" logged.flatten = [""] := by
  have hadded := VariableTable.add_empty "P1"
  have hempty : ∀ name, VariableTable.empty.read name = "" := fun name =>
    VariableTable.read_of_not_mem VariableTable.kept_empty List.not_mem_nil
  have hkept := VariableTable.kept_add VariableTable.kept_empty "P1"
  -- one name has a value from the second notice on, and the other is never registered
  have hvalue : oneValue.read "P1" = "5" :=
    VariableTable.read_store_self (p := ("P1", "5")) hkept (by rw [hadded.1]; decide)
  have hnone : oneValue.read "P2" = "" := by
    refine VariableTable.read_of_not_mem (VariableTable.kept_store hkept _) ?_
    rw [VariableTable.names_store hkept, hadded.1]
    decide
  have hreplays := replay_reports ["P1", "P2", "P1"]
    [⟨.fast, .empty, []⟩, ⟨.fast, oneValue, []⟩, ⟨.slow, oneValue, []⟩]
  refine ⟨(hreplays.values "P1" (by decide)).trans ?_, (hreplays.values "P2" (by decide)).trans ?_⟩
  · simp only [List.map_cons, List.map_nil, hempty, hvalue]
    decide
  · simp only [List.map_cons, List.map_nil, hempty, hnone]
    decide

end ChangeLog

end PmacPoll
