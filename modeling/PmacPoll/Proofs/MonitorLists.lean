import PmacPoll.Proofs.ChangeReplay
import PmacPoll.Proofs.CurrentCommands
import PmacPoll.Proofs.CycleOrder
import PmacPoll.Proofs.UsableSettings

/-!
# Monitor lists from the environment to the commands

The variables of a tier are cut at blanks three times: when the settings are read, when they are
registered, and when a command is told apart again. In between they are joined twice, for the
registration and for the commands, of which there is one for forty names.

Nothing is lost on that way and no two names run together, because the pieces are words each time:
what is joined is cut into the same pieces again, `Text.words_unwords`. A name that comes again is
registered once, where it came first, `names_addAll_eq`. The main result is `addMonitored_survives`.
-/

namespace PmacPoll

namespace VariableTable

variable {t : VariableTable}

/-- Names that are not there yet go to the end, each where it first comes. -/
theorem names_addAll_eq (h : t.Kept) (names : List String) :
    (t.addAll names).names = t.names ++ names.eraseDups.filter (· ∉ t.names) := by
  induction names generalizing t with
  | nil => exact (List.append_nil _).symm
  | cons name more ih =>
    have hmore : (t.addAll (name :: more)).names = ((t.add name).addAll more).names := rfl
    rw [hmore, ih (kept_add h name), List.eraseDups_cons, eraseDups_filter, List.filter_cons,
      List.filter_filter]
    by_cases hname : name ∈ t.names
    · -- the filter for new names leaves this one out in any case
      rw [add_of_mem h hname, if_neg (by simpa using hname)]
      refine congrArg (t.names ++ ·) (List.filter_congr fun other _ => ?_)
      by_cases hother : other = name
      · simp [hother, hname]
      · simp [hother]
    · rw [names_add h hname, if_pos (by simpa using hname), List.append_assoc,
        List.singleton_append]
      refine congrArg (t.names ++ name :: ·) (List.filter_congr fun other _ => ?_)
      by_cases hother : other = name
      · simp [hother]
      · simp [hother]

/-- An empty table has no names. -/
private theorem names_of_isEmpty (h : t.Kept) (hempty : t.isEmpty = true) : t.names = [] := by
  rw [isEmpty, OrderedMap.isEmpty_eq_isEmpty h.coherent, List.isEmpty_iff] at hempty
  rw [names, OrderedMap.keys, hempty]
  rfl

end VariableTable

namespace Gateway

variable {σ κ ω : Type} {g : Gateway σ κ ω}

/-- What comes of the variables that are set for a tier: how many there are, and the variables of
    the tier after they were registered. -/
structure Survives (text : String) (tier : Tier) (count : Nat) (t : VariableTable) : Prop where
  /-- They are what the settings have for the tier. -/
  found : ∀ (env : Environment) (s : Settings),
    env.Says (Settings.Variable.monitored tier).key text → Settings.ofEnvironment env = .ok s →
      s.monitored.get tier = Settings.variableList text
  /-- The text is these names with blanks between and around them. -/
  spaced : Text.Spaced text.toList (Settings.variableList text)
  words : ∀ name ∈ Settings.variableList text, Text.IsWord name
  counted : count = (Settings.variableList text).length
  /-- They are registered without repetitions. -/
  registered : t.names = (Settings.variableList text).eraseDups
  once : t.names.Nodup
  /-- The order is that in which they first occur. -/
  order : t.names.Pairwise fun a b =>
    (Settings.variableList text).idxOf a < (Settings.variableList text).idxOf b
  /-- The commands ask for them in that order. -/
  asked : t.commands.flatMap Text.words = t.names
  /-- Joining and cutting once more changes nothing. -/
  again : Settings.variableList (Text.unwords (Settings.variableList text)) =
    Settings.variableList text

/-- The variables that are monitored are those of the table to which the words were added. -/
private theorem table_addMonitored (tier : Tier) (list : String) (g : Gateway σ κ ω) :
    (g.addMonitored tier list).2.table tier = (g.table tier).addAll (Text.words list) := by
  simp only [addMonitored, addVariables, modifyTier, table, PerTier.get_set_self]

/-- **Monitor lists survive.** Whatever text is set for a tier, its words are what the settings
    have, what a tier without variables has after they were registered, each once, and what the
    commands of the tier then ask for. -/
theorem addMonitored_survives [Transport σ] [Listener κ ω] (hg : g.Reachable) {tier : Tier}
    (hempty : (g.table tier).isEmpty = true) (text : String) :
    Survives text tier
      (g.addMonitored tier (Text.unwords (Settings.variableList text))).1
      ((g.addMonitored tier (Text.unwords (Settings.variableList text))).2.table tier) := by
  have hkept : (g.table tier).Kept := tablesKept_of_reachable hg tier
  have hwords : ∀ name ∈ Settings.variableList text, Text.IsWord name :=
    fun name => Text.isWord_of_mem_words
  -- what is joined for the registration is cut into the same words
  have hagain : Text.words (Text.unwords (Settings.variableList text)) =
      Settings.variableList text := Text.words_unwords hwords
  have hnames : ((g.table tier).addAll (Settings.variableList text)).names =
      (Settings.variableList text).eraseDups := by
    rw [VariableTable.names_addAll_eq hkept, VariableTable.names_of_isEmpty hkept hempty]
    simp
  rw [table_addMonitored, hagain]
  refine ⟨fun env s hheld hok => ?_, Text.spaced_iff.mpr rfl, hwords, ?_,
    hnames, ?_, ?_, ?_, hagain⟩
  · have hlist := (Settings.readFrom_of_ok hok).monitored tier
    rw [hlist, Settings.list, Environment.text?_eq_some_iff.mpr hheld]
  · rw [addMonitored, hagain]
  · exact OrderedMap.nodup_keys (VariableTable.kept_addAll hkept _).coherent
  · rw [hnames]
    exact pairwise_idxOf_eraseDups _
  · -- the commands are cut into the names that are registered, which are words
    rw [List.flatMap_def]
    refine VariableTable.flatten_commands (VariableTable.kept_addAll hkept _) fun name hname => ?_
    rw [hnames, List.mem_eraseDups] at hname
    exact hwords name hname

/-- Four kinds of blanks, and a name that comes again. -/
def mixedBlanks : String := " P1\t#2P\u3000P1\n&2Q87 "

/-- One name comes twice and the blanks are of four kinds; three names are left, in the order in
    which they first occur. -/
theorem addMonitored_survives_mixedBlanks :
    let g : Gateway Endpoint ChangeLog Change := .new { host := "pmac" } {} 0 false
    let joined := Text.unwords (Settings.variableList mixedBlanks)
    (g.table .fast).isEmpty = true ∧ joined = "P1 #2P P1 &2Q87" ∧
      (g.addMonitored .fast joined).1 = 4 ∧
      ((g.addMonitored .fast joined).2.table .fast).names = ["P1", "#2P", "&2Q87"] ∧
      ((g.addMonitored .fast joined).2.table .fast).commands.flatMap Text.words =
        ["P1", "#2P", "&2Q87"] := by
  intro g joined
  have hlist : Settings.variableList mixedBlanks = ["P1", "#2P", "P1", "&2Q87"] := by decide
  have hempty : (g.table .fast).isEmpty = true := rfl
  have hreachable : g.Reachable := .new ({ host := "pmac" } : Endpoint) {} 0 false
  -- the names are registered without the one that comes again
  have hsurvives := addMonitored_survives hreachable hempty mixedBlanks
  have honce : ["P1", "#2P", "P1", "&2Q87"].eraseDups = ["P1", "#2P", "&2Q87"] := by decide
  have hnames := hsurvives.registered
  rw [hlist, honce] at hnames
  have hjoined : Text.unwords ["P1", "#2P", "P1", "&2Q87"] = "P1 #2P P1 &2Q87" := by decide
  refine ⟨hempty, (congrArg Text.unwords hlist).trans hjoined, ?_, hnames,
    hsurvives.asked.trans hnames⟩
  exact hsurvives.counted.trans (congrArg List.length hlist)

end Gateway

end PmacPoll
