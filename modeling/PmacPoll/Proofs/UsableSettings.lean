import Mathlib.Data.List.Nodup
import Mathlib.Data.Nat.Digits.Defs
import PmacPoll.Proofs.Utf8Text
import PmacPoll.Settings

/-!
# Settings that can be used

An environment gives settings just if its host can be read and none of the variables that are
looked at has a `Fault`. If one has, the error names the first of them, in the order of `checked`,
`BlamesFirst`.

Every number is read in the same way, `Number.read_eq`, which either gives a number that the text
denotes, or the default, or finds the fault, `Number.read_cases`. That looking at variables one
after another blames the first one is said once for any two groups of them, `Judges.bind`. Each
setting is read from its own variable, `ReadFrom`, so that no other one has a part in it. The main
result is `ofEnvironment_verdict`.
-/

namespace PmacPoll

/-! ### Decimals -/

namespace Decimal

/-- The number that some decimal digits stand for, the most significant one first. -/
def value (digits : List Char) : Nat :=
  Nat.ofDigits 10 (digits.reverse.map fun c => c.toNat - '0'.toNat)

/-- An unsigned decimal: a plus sign or none, then at least one digit, and nothing else. -/
def Denotes (text : String) (n : Nat) : Prop :=
  ∃ digits : List Char, digits ≠ [] ∧ (∀ c ∈ digits, c.isDigit = true) ∧
    (text.toList = digits ∨ text.toList = '+' :: digits) ∧ n = value digits

/-- The first digit has the highest power. -/
private theorem value_cons (c : Char) (rest : List Char) :
    value (c :: rest) = (c.toNat - '0'.toNat) * 10 ^ rest.length + value rest := by
  rw [value, List.reverse_cons, List.map_append, Nat.ofDigits_append, List.map_singleton,
    Nat.ofDigits_singleton, List.length_map, List.length_reverse, value, Nat.mul_comm,
    Nat.add_comm]

/-- Digits are read from the left, with the number that was read so far. -/
private theorem digits?_eq_some_iff {start n : Nat} {cs : List Char} :
    digits? start cs = some n ↔
      (∀ c ∈ cs, c.isDigit = true) ∧ n = start * 10 ^ cs.length + value cs := by
  -- on the digits that are left; the number so far is any
  induction cs generalizing start with
  | nil =>
    have hvalue : start * 10 ^ ([] : List Char).length + value [] = start := by simp [value]
    rw [digits?, Option.some_inj, hvalue, eq_comm]
    exact (and_iff_right nofun).symm
  | cons c rest ih =>
    rw [digits?, List.forall_mem_cons]
    by_cases hc : c.isDigit = true
    · have hsum : (10 * start + (c.toNat - '0'.toNat)) * 10 ^ rest.length + value rest =
          start * 10 ^ (rest.length + 1) +
            ((c.toNat - '0'.toNat) * 10 ^ rest.length + value rest) := by
        rw [Nat.pow_succ]
        grind
      rw [if_pos hc, ih, value_cons, List.length_cons, hsum, and_iff_right hc]
    · -- a character that is no digit ends the reading without a number
      rw [if_neg hc]
      exact ⟨nofun, fun h => absurd h.1.1 hc⟩

/-- A number has a digit, and no other character. -/
private theorem unsigned?_eq_some_iff {n : Nat} {cs : List Char} :
    unsigned? cs = some n ↔ cs ≠ [] ∧ (∀ c ∈ cs, c.isDigit = true) ∧ n = value cs := by
  cases cs with
  | nil => exact ⟨nofun, fun h => absurd rfl h.1⟩
  | cons c rest =>
    rw [unsigned?, digits?_eq_some_iff, Nat.zero_mul, Nat.zero_add]
    · exact (and_iff_right (List.cons_ne_nil c rest)).symm
    · exact nofun

/-- Exactly the unsigned decimals of numbers below the bound are read, each as its number. -/
private theorem parse?_eq_some_iff {bound n : Nat} {text : String} :
    parse? bound text = some n ↔ Denotes text n ∧ n < bound := by
  simp only [parse?, Option.filter_eq_some_iff, decide_eq_true_eq]
  refine and_congr_left fun _ => ?_
  split
  · next cs htext =>
    rw [unsigned?_eq_some_iff]
    constructor
    · rintro ⟨hne, hdigits, hvalue⟩
      exact ⟨cs, hne, hdigits, Or.inr htext, hvalue⟩
    · rintro ⟨digits, hne, hdigits, hwhole | hrest, hvalue⟩
      · -- a plus sign is no digit
        have hplus : '+' ∈ digits := by simp [← hwhole, htext]
        exact absurd (hdigits '+' hplus) (by decide)
      · obtain rfl := (List.cons.inj (htext.symm.trans hrest)).2
        exact ⟨hne, hdigits, hvalue⟩
  · next hplain =>
    rw [unsigned?_eq_some_iff]
    constructor
    · rintro ⟨hne, hdigits, hvalue⟩
      exact ⟨text.toList, hne, hdigits, Or.inl rfl, hvalue⟩
    · rintro ⟨digits, hne, hdigits, rfl | hrest, hvalue⟩
      · exact ⟨hne, hdigits, hvalue⟩
      · exact absurd hrest (hplain digits)

/-- A text denotes at most one number. -/
theorem Denotes.unique {n m : Nat} {text : String} (hn : Denotes text n) (hm : Denotes text m) :
    n = m := by
  have hreadN := parse?_eq_some_iff.mpr ⟨hn, (by omega : n < n + m + 1)⟩
  have hreadM := parse?_eq_some_iff.mpr ⟨hm, (by omega : m < n + m + 1)⟩
  exact Option.some.inj (hreadN.symm.trans hreadM)

end Decimal

/-! ### Environments -/

namespace Environment

/-- A variable is there, and its value is a text. -/
def Says (env : Environment) (key text : String) : Prop :=
  env key = some (Utf8.encode text)

/-- A variable is absent, or what it has is no text. -/
def Silent (env : Environment) (key : String) : Prop :=
  ∀ text, ¬ env.Says key text

variable {env : Environment} {key text : String}

/-- A text is found just if the environment says it. -/
theorem text?_eq_some_iff : env.text? key = some text ↔ env.Says key text := by
  simp only [Environment.text?, Option.bind_eq_some_iff, Utf8.decode?_eq_some_iff, Says]
  constructor
  · rintro ⟨bytes, hbytes, rfl⟩
    exact hbytes
  · exact fun h => ⟨_, h, rfl⟩

/-- None is found just if the environment is silent on the key. -/
private theorem text?_eq_none_iff : env.text? key = none ↔ env.Silent key := by
  rw [Option.eq_none_iff_forall_not_mem]
  exact forall_congr' fun text => not_congr text?_eq_some_iff

/-- An environment says at most one text of a key. -/
theorem Says.unique {other : String} (h : env.Says key text) (hother : env.Says key other) :
    text = other := by
  rw [← text?_eq_some_iff] at h hother
  exact Option.some.inj (h.symm.trans hother)

end Environment

namespace Settings

/-! ### Variables -/

/-- The settings that are numbers. -/
inductive Number where
  | port
  | timeout
  | connectTimeout
  | maxReplyBytes
  | fastPeriod
  | mediumPeriod
  | slowPeriod
  | statsInterval
  deriving DecidableEq, Repr

namespace Number

/-- The numbers in the order in which they are read. -/
def all : List Number :=
  [port, timeout, connectTimeout, maxReplyBytes, fastPeriod, mediumPeriod, slowPeriod,
    statsInterval]

/-- The variable of a number. -/
def key : Number → String
  | port => "PMAC_PORT"
  | timeout => "PMAC_TIMEOUT_MS"
  | connectTimeout => "PMAC_CONNECT_TIMEOUT_MS"
  | maxReplyBytes => "PMAC_MAX_REPLY_BYTES"
  | fastPeriod => "PMAC_FAST_PERIOD_MS"
  | mediumPeriod => "PMAC_MEDIUM_PERIOD_MS"
  | slowPeriod => "PMAC_SLOW_PERIOD_MS"
  | statsInterval => "PMAC_STATS_INTERVAL_SECONDS"

/-- All values are below this one. -/
def bound : Number → Nat
  | port => 2 ^ 16
  | _ => 2 ^ 64

/-- Is zero no value? -/
def isPositive : Number → Bool
  | port | statsInterval => false
  | _ => true

/-- The value if nothing is said of it. -/
def default : Number → Nat
  | port => 1025
  | timeout => 5000
  | connectTimeout => 5000
  | maxReplyBytes => 1024
  | fastPeriod => 500
  | mediumPeriod => 2000
  | slowPeriod => 5000
  | statsInterval => 30

/-- The value that it has in some settings. -/
def value (s : Settings) : Number → Nat
  | port => s.port
  | timeout => s.timeoutMs
  | connectTimeout => s.connectTimeoutMs
  | maxReplyBytes => s.maxReplyBytes
  | fastPeriod => s.fastPeriodMs
  | mediumPeriod => s.mediumPeriodMs
  | slowPeriod => s.slowPeriodMs
  | statsInterval => s.statsIntervalSeconds

/-- Reads a number. -/
def read (env : Environment) (v : Number) : Except SettingsError Nat :=
  if v.isPositive then positive env v.key v.default else number env v.bound v.key v.default

end Number

/-- The variables that settings are read from. -/
inductive Variable where
  | host
  | number (v : Number)
  | flushBeforeWrite
  | monitored (tier : Tier)
  deriving DecidableEq, Repr

namespace Variable

/-- The name of a variable. -/
def key : Variable → String
  | host => "PMAC_HOST"
  | number v => v.key
  | flushBeforeWrite => "PMAC_FLUSH_BEFORE_WRITE"
  | monitored .preFast => "PMAC_MONITOR_PREFAST"
  | monitored .fast => "PMAC_MONITOR_FAST"
  | monitored .medium => "PMAC_MONITOR_MEDIUM"
  | monitored .slow => "PMAC_MONITOR_SLOW"

/-- The variables that can be wrong, in the order in which they are looked at. -/
def checked : List Variable := .host :: Number.all.map .number

end Variable

/-- What is wrong with a variable, and what is reported as its value. -/
inductive Fault (env : Environment) : Variable → String → Prop where
  /-- The host consists of blanks. -/
  | host {text : String} : env.Says "PMAC_HOST" text →
      (∀ c ∈ text.toList, Text.isBlank c = true) → Fault env .host text
  /-- There is a text that is no unsigned decimal, or that of too large a number. -/
  | number {v : Number} {text : String} : env.Says v.key text →
      (∀ n, Decimal.Denotes text n → v.bound ≤ n) → Fault env (.number v) text
  /-- There is a zero, which is no value. -/
  | zero {v : Number} {text : String} : env.Says v.key text → Decimal.Denotes text 0 →
      v.isPositive = true → Fault env (.number v) "0"

/-- A number is what the text of its variable denotes, or the default if there is no text. -/
def Number.Reads (env : Environment) (v : Number) (n : Nat) : Prop :=
  env.Silent v.key ∧ n = v.default ∨
    ∃ text, env.Says v.key text ∧ Decimal.Denotes text n ∧ n < v.bound

variable {env other : Environment}

/-! ### Reading one variable -/

/-- No default is zero. -/
private theorem Number.default_pos (v : Number) : 0 < v.default := by
  cases v <;> decide

/-- A number is read in the same way whether it can be zero or not. -/
theorem Number.read_eq (env : Environment) (v : Number) : v.read env =
    match env.text? v.key with
    | none => .ok v.default
    | some text =>
      match Decimal.parse? v.bound text with
      | none => .error (.invalid v.key text)
      | some n => if v.isPositive = true ∧ n = 0 then .error (.invalid v.key "0") else .ok n := by
  cases hpositive : v.isPositive with
  | false =>
    simp only [read, hpositive, number, Bool.false_eq_true, false_and, if_false]
    cases env.text? v.key with
    | none => rfl
    | some text =>
      dsimp only
      cases Decimal.parse? v.bound text <;> rfl
  | true =>
    have hbound : v.bound = UInt64.size := by
      cases v with
      | port => exact absurd hpositive Bool.false_ne_true
      -- every variable that is to be positive has the same bound
      | _ => rfl
    have hdefault : v.default ≠ 0 := Nat.ne_of_gt v.default_pos
    simp only [read, hpositive, positive, number, hbound, true_and, if_true]
    cases env.text? v.key with
    | none => exact if_neg hdefault
    | some text =>
      dsimp only
      cases Decimal.parse? UInt64.size text <;> rfl

/-- A variable that is not there is not at fault. -/
private theorem Number.not_fault_of_silent {v : Number} (h : env.Silent v.key) (value : String) :
    ¬ Fault env (.number v) value := by
  intro hfault
  cases hfault with
  | number hheld => exact h _ hheld
  | zero hheld => exact h _ hheld

/-- A number that is in range, and is no zero where that is no value, is not at fault. -/
private theorem Number.not_fault_of_denotes {v : Number} {text : String} {n : Nat}
    (hheld : env.Says v.key text) (hn : Decimal.Denotes text n) (hlt : n < v.bound)
    (hpositive : v.isPositive = true → 0 < n) (value : String) :
    ¬ Fault env (.number v) value := by
  intro hfault
  cases hfault with
  | number hother hlarge =>
    obtain rfl := hheld.unique hother
    exact absurd hlt (Nat.not_lt_of_le (hlarge n hn))
  | zero hother hzero hv =>
    obtain rfl := hheld.unique hother
    exact absurd (hn.unique hzero) (Nat.ne_of_gt (hpositive hv))

/-- A number is read, or its variable is blamed. -/
theorem Number.read_cases (env : Environment) (v : Number) :
    (∃ n, v.read env = .ok n ∧ v.Reads env n ∧ (v.isPositive = true → 0 < n) ∧
      ∀ value, ¬ Fault env (.number v) value) ∨
    ∃ value, v.read env = .error (.invalid v.key value) ∧ Fault env (.number v) value := by
  rw [read_eq]
  cases htext : env.text? v.key with
  | none =>
    have hsilent := Environment.text?_eq_none_iff.mp htext
    exact Or.inl ⟨v.default, rfl, Or.inl ⟨hsilent, rfl⟩, fun _ => v.default_pos,
      not_fault_of_silent hsilent⟩
  | some text =>
    have hheld := Environment.text?_eq_some_iff.mp htext
    dsimp only
    cases hparse : Decimal.parse? v.bound text with
    | none =>
      refine Or.inr ⟨text, rfl, .number hheld fun n hn => Nat.le_of_not_lt fun hlt => ?_⟩
      -- a number that is denoted within the bound would have been read
      exact nomatch hparse.symm.trans (Decimal.parse?_eq_some_iff.mpr ⟨hn, hlt⟩)
    | some n =>
      obtain ⟨hn, hlt⟩ := Decimal.parse?_eq_some_iff.mp hparse
      dsimp only
      split
      · next hzero =>
        obtain ⟨hv, rfl⟩ := hzero
        exact Or.inr ⟨"0", rfl, .zero hheld hn hv⟩
      · next hfit =>
        have hpositive : v.isPositive = true → 0 < n :=
          fun hv => Nat.pos_of_ne_zero fun hzero => hfit ⟨hv, hzero⟩
        exact Or.inl ⟨n, rfl, Or.inr ⟨text, hheld, hn, hlt⟩, hpositive,
          not_fault_of_denotes hheld hn hlt hpositive⟩

/-- The host is missing, it is read, or it is blamed. -/
private theorem requiredHost_cases (env : Environment) :
    (requiredHost env = .error (.missing "PMAC_HOST") ∧ env.Silent "PMAC_HOST") ∨
    (∃ text, requiredHost env = .ok text ∧ env.Says "PMAC_HOST" text ∧
      ∀ value, ¬ Fault env .host value) ∨
    ∃ text, requiredHost env = .error (.invalid "PMAC_HOST" text) ∧ Fault env .host text := by
  rw [requiredHost]
  -- no host is set, or a blank one, or one that is fit
  cases htext : env.text? "PMAC_HOST" with
  | none => exact Or.inl ⟨rfl, Environment.text?_eq_none_iff.mp htext⟩
  | some text =>
    have hheld := Environment.text?_eq_some_iff.mp htext
    dsimp only
    split
    · next hblank =>
      exact Or.inr (Or.inr ⟨text, rfl, .host hheld (Text.isEmpty_trim_iff.mp hblank)⟩)
    · next hfit =>
      refine Or.inr (Or.inl ⟨text, rfl, hheld, ?_⟩)
      rintro value ⟨hother, hblank⟩
      obtain rfl := hheld.unique hother
      exact hfit (Text.isEmpty_trim_iff.mpr hblank)

/-- Without a host there is no other error. -/
private theorem requiredHost_of_silent (h : env.Silent "PMAC_HOST") :
    requiredHost env = .error (.missing "PMAC_HOST") := by
  rw [requiredHost, Environment.text?_eq_none_iff.mpr h]

/-- The host that is read is the one of the environment. -/
private theorem says_of_requiredHost {host : String} (h : requiredHost env = .ok host) :
    env.Says "PMAC_HOST" host := by
  rcases requiredHost_cases env with ⟨herror, -⟩ | ⟨text, hok, hheld, -⟩ | ⟨text, herror, -⟩
  · exact nomatch h.symm.trans herror
  · obtain rfl := Except.ok.inj (h.symm.trans hok)
    exact hheld
  · exact nomatch h.symm.trans herror

/-- A number that is read comes from its variable, and it is positive where it has to be. -/
private theorem Number.reads_of_ok {v : Number} {n : Nat} (h : v.read env = .ok n) :
    v.Reads env n ∧ (v.isPositive = true → 0 < n) := by
  rcases Number.read_cases env v with ⟨n', hok, hreads, hpositive, -⟩ | ⟨value, herror, -⟩
  · obtain rfl := Except.ok.inj (h.symm.trans hok)
    exact ⟨hreads, hpositive⟩
  · exact nomatch h.symm.trans herror

/-! ### The first fault -/

/-- An error is about the first of some variables that has a fault. -/
def BlamesFirst (env : Environment) (vs : List Variable) (e : SettingsError) : Prop :=
  ∃ before v after value, vs = before ++ v :: after ∧
    (∀ earlier ∈ before, ∀ value, ¬ Fault env earlier value) ∧
    Fault env v value ∧ e = .invalid v.key value

/-- None of some variables has a fault, or the first one that has is blamed. -/
def Judges {α : Type} (env : Environment) (vs : List Variable) : Except SettingsError α → Prop
  | .ok _ => ∀ v ∈ vs, ∀ value, ¬ Fault env v value
  | .error e => BlamesFirst env vs e

variable {α β : Type}

/-- Looking at nothing gives settings without a fault. -/
private theorem judges_ok (a : α) : Judges env [] (.ok a) :=
  nofun

/-- What is looked at later is blamed only if there is no fault before. -/
theorem Judges.bind {vs later : List Variable} {x : Except SettingsError α}
    {f : α → Except SettingsError β} (hx : Judges env vs x) (hf : ∀ a, Judges env later (f a)) :
    Judges env (vs ++ later) (x >>= f) := by
  cases x with
  | error e =>
    obtain ⟨before, v, after, value, rfl, hbefore, hfault, he⟩ := hx
    -- the fault of the first part is the first of both
    refine ⟨before, v, after ++ later, value, ?_, hbefore, hfault, he⟩
    rw [List.append_assoc, List.cons_append]
  | ok a =>
    have hlater := hf a
    change Judges env (vs ++ later) (f a)
    cases hfa : f a with
    | ok b =>
      rw [hfa] at hlater
      exact fun v hv => (List.mem_append.mp hv).elim (hx v) (hlater v)
    | error e =>
      rw [hfa] at hlater
      obtain ⟨before, v, after, value, rfl, hbefore, hfault, he⟩ := hlater
      -- the first part has no fault, so the first one of the second part is the first of both
      refine ⟨vs ++ before, v, after, value, (List.append_assoc ..).symm, ?_, hfault, he⟩
      exact fun w hw => (List.mem_append.mp hw).elim (hx w) (hbefore w)

/-- One variable is looked at. -/
private theorem judges_singleton {v : Variable} {x : Except SettingsError α}
    (h : (∃ a, x = .ok a ∧ ∀ value, ¬ Fault env v value) ∨
      ∃ value, x = .error (.invalid v.key value) ∧ Fault env v value) : Judges env [v] x := by
  rcases h with ⟨a, rfl, hfit⟩ | ⟨value, rfl, hfault⟩
  · intro w hw
    obtain rfl := List.mem_singleton.mp hw
    exact hfit
  · exact ⟨[], v, [], value, rfl, nofun, hfault, rfl⟩

/-- A number is judged by its own variable. -/
private theorem judges_read (env : Environment) (v : Number) :
    Judges env [.number v] (v.read env) := by
  refine judges_singleton ((Number.read_cases env v).imp_left ?_)
  rintro ⟨n, hok, -, -, hfit⟩
  exact ⟨n, hok, hfit⟩

/-- The host is judged by its own variable, unless it is missing. -/
private theorem judges_requiredHost (h : ¬ env.Silent "PMAC_HOST") :
    Judges env [.host] (requiredHost env) := by
  refine judges_singleton (((requiredHost_cases env).resolve_left fun hs => h hs.2).imp_left ?_)
  rintro ⟨text, hok, -, hfit⟩
  exact ⟨text, hok, hfit⟩

/-- The settings of an environment, with every number read as one of the same family. -/
private theorem ofEnvironment_eq (env : Environment) : ofEnvironment env = (do
    let host ← requiredHost env
    let port ← Number.port.read env
    let timeoutMs ← Number.timeout.read env
    let connectTimeoutMs ← Number.connectTimeout.read env
    let maxReplyBytes ← Number.maxReplyBytes.read env
    let fastPeriodMs ← Number.fastPeriod.read env
    let mediumPeriodMs ← Number.mediumPeriod.read env
    let slowPeriodMs ← Number.slowPeriod.read env
    let statsIntervalSeconds ← Number.statsInterval.read env
    return {
      host, port, timeoutMs, connectTimeoutMs, maxReplyBytes,
      flushBeforeWrite := switch env "PMAC_FLUSH_BEFORE_WRITE" true
      fastPeriodMs, mediumPeriodMs, slowPeriodMs, statsIntervalSeconds
      monitored := {
        preFast := list env "PMAC_MONITOR_PREFAST"
        fast := list env "PMAC_MONITOR_FAST"
        medium := list env "PMAC_MONITOR_MEDIUM"
        slow := list env "PMAC_MONITOR_SLOW" } }) := rfl

/-- The variables are looked at in the order of `Variable.checked`. -/
private theorem judges_ofEnvironment (h : ¬ env.Silent "PMAC_HOST") :
    Judges env Variable.checked (ofEnvironment env) := by
  -- one check after another, in the order in which they are made
  rw [ofEnvironment_eq]
  refine (judges_requiredHost h).bind fun host => ?_
  refine (judges_read env .port).bind fun port => ?_
  refine (judges_read env .timeout).bind fun timeoutMs => ?_
  refine (judges_read env .connectTimeout).bind fun connectTimeoutMs => ?_
  refine (judges_read env .maxReplyBytes).bind fun maxReplyBytes => ?_
  refine (judges_read env .fastPeriod).bind fun fastPeriodMs => ?_
  refine (judges_read env .mediumPeriod).bind fun mediumPeriodMs => ?_
  refine (judges_read env .slowPeriod).bind fun slowPeriodMs => ?_
  refine (judges_read env .statsInterval).bind fun statsIntervalSeconds => ?_
  exact judges_ok _

/-- What comes of two parts comes of the second one on the value of the first. -/
private theorem ok_of_bind {x : Except SettingsError α} {f : α → Except SettingsError β} {b : β}
    (h : x >>= f = .ok b) : ∃ a, x = .ok a ∧ f a = .ok b := by
  cases x with
  | ok a => exact ⟨a, rfl, h⟩
  | error e => exact nomatch h

/-- Each setting is read from its own variable. -/
structure ReadFrom (env : Environment) (s : Settings) : Prop where
  host : requiredHost env = .ok s.host
  number : ∀ v : Number, v.read env = .ok (v.value s)
  flushBeforeWrite : s.flushBeforeWrite = switch env "PMAC_FLUSH_BEFORE_WRITE" true
  monitored : ∀ tier, s.monitored.get tier = list env (Variable.monitored tier).key

/-- Settings that were read are read field by field. -/
theorem readFrom_of_ok {s : Settings} (h : ofEnvironment env = .ok s) : ReadFrom env s := by
  rw [ofEnvironment_eq] at h
  -- each step of the reading went well
  obtain ⟨host, hhost, h⟩ := ok_of_bind h
  obtain ⟨port, hport, h⟩ := ok_of_bind h
  obtain ⟨timeoutMs, htimeout, h⟩ := ok_of_bind h
  obtain ⟨connectTimeoutMs, hconnect, h⟩ := ok_of_bind h
  obtain ⟨maxReplyBytes, hmax, h⟩ := ok_of_bind h
  obtain ⟨fastPeriodMs, hfast, h⟩ := ok_of_bind h
  obtain ⟨mediumPeriodMs, hmedium, h⟩ := ok_of_bind h
  obtain ⟨slowPeriodMs, hslow, h⟩ := ok_of_bind h
  obtain ⟨statsIntervalSeconds, hstats, h⟩ := ok_of_bind h
  obtain rfl := Except.ok.inj h
  refine ⟨hhost, fun v => ?_, rfl, fun tier => ?_⟩
  · cases v <;> assumption
  · cases tier <;> rfl

/-! ### Each setting and its own variable -/

/-- What can be set. -/
inductive Field where
  | text (text : String)
  | number (n : Nat)
  | switch (on : Bool)
  | names (names : List String)
  deriving DecidableEq, Repr

/-- What a variable has set. -/
def Variable.field (s : Settings) : Variable → Field
  | host => .text s.host
  | number v => .number (v.value s)
  | flushBeforeWrite => .switch s.flushBeforeWrite
  | monitored tier => .names (s.monitored.get tier)

/-- There is nothing else in settings. -/
private theorem eq_of_field {s s' : Settings} (h : ∀ v : Variable, v.field s = v.field s') :
    s = s' := by
  have hnumber : ∀ v : Number, v.value s = v.value s' := fun v => Field.number.inj (h (.number v))
  have hnames : ∀ tier, s.monitored.get tier = s'.monitored.get tier :=
    fun tier => Field.names.inj (h (.monitored tier))
  -- field by field
  obtain ⟨host, port, timeoutMs, connectTimeoutMs, maxReplyBytes, flushBeforeWrite, fastPeriodMs,
    mediumPeriodMs, slowPeriodMs, statsIntervalSeconds, preFast, fast, medium, slow⟩ := s
  obtain rfl : host = s'.host := Field.text.inj (h .host)
  obtain rfl : port = s'.port := hnumber .port
  obtain rfl : timeoutMs = s'.timeoutMs := hnumber .timeout
  obtain rfl : connectTimeoutMs = s'.connectTimeoutMs := hnumber .connectTimeout
  obtain rfl : maxReplyBytes = s'.maxReplyBytes := hnumber .maxReplyBytes
  obtain rfl : flushBeforeWrite = s'.flushBeforeWrite := Field.switch.inj (h .flushBeforeWrite)
  obtain rfl : fastPeriodMs = s'.fastPeriodMs := hnumber .fastPeriod
  obtain rfl : mediumPeriodMs = s'.mediumPeriodMs := hnumber .mediumPeriod
  obtain rfl : slowPeriodMs = s'.slowPeriodMs := hnumber .slowPeriod
  obtain rfl : statsIntervalSeconds = s'.statsIntervalSeconds := hnumber .statsInterval
  obtain rfl : preFast = s'.monitored.preFast := hnames .preFast
  obtain rfl : fast = s'.monitored.fast := hnames .fast
  obtain rfl : medium = s'.monitored.medium := hnames .medium
  obtain rfl : slow = s'.monitored.slow := hnames .slow
  rfl

/-- All variables. -/
def Variable.all : List Variable :=
  checked ++ flushBeforeWrite :: Tier.all.map monitored

/-- There are no other variables. -/
private theorem Variable.mem_all (v : Variable) : v ∈ all := by
  cases v with
  | host | flushBeforeWrite => decide
  | number v => cases v <;> decide
  | monitored tier => cases tier <;> decide

/-- Different variables have different keys. -/
private theorem Variable.key_injective {v w : Variable} (h : v.key = w.key) : v = w := by
  have hnodup : (all.map key).Nodup := by decide
  exact List.inj_on_of_nodup_map hnodup v.mem_all w.mem_all h

/-- A setting depends on its own variable alone. -/
private theorem field_eq_of_key_eq {s s' : Settings} (hs : ReadFrom env s) (hs' : ReadFrom other s')
    {v : Variable} (h : env v.key = other v.key) : v.field s = v.field s' := by
  have htext : env.text? v.key = other.text? v.key := by
    rw [Environment.text?, Environment.text?, h]
  -- each field is read by a function of the text of its key
  cases v with
  | host =>
    have hkey : env.text? "PMAC_HOST" = other.text? "PMAC_HOST" := htext
    have hhost : requiredHost env = requiredHost other := by
      rw [requiredHost, requiredHost, hkey]
    rw [hs.host, hs'.host] at hhost
    exact congrArg Field.text (Except.ok.inj hhost)
  | number v =>
    have hkey : env.text? v.key = other.text? v.key := htext
    have hread : v.read env = v.read other := by
      rw [Number.read_eq, Number.read_eq, hkey]
    rw [hs.number, hs'.number] at hread
    exact congrArg Field.number (Except.ok.inj hread)
  | flushBeforeWrite =>
    have hkey : env.text? "PMAC_FLUSH_BEFORE_WRITE" = other.text? "PMAC_FLUSH_BEFORE_WRITE" := htext
    rw [Variable.field, Variable.field, hs.flushBeforeWrite, hs'.flushBeforeWrite, switch, switch,
      hkey]
  | monitored tier =>
    rw [Variable.field, Variable.field, hs.monitored, hs'.monitored, list, list, htext]

/-! ### The verdict -/

/-- What becomes of an environment. -/
structure Verdict (env : Environment) : Prop where
  /-- Without a host there are no settings. -/
  missing : ofEnvironment env = .error (.missing "PMAC_HOST") ↔ env.Silent "PMAC_HOST"
  /-- With one there are none just if a variable has a fault. -/
  fails : ¬ env.Silent "PMAC_HOST" →
    ((∃ e, ofEnvironment env = .error e) ↔ ∃ v ∈ Variable.checked, ∃ value, Fault env v value)
  /-- Then the first one that has is blamed. -/
  blames : ¬ env.Silent "PMAC_HOST" →
    ∀ e, ofEnvironment env = .error e → BlamesFirst env Variable.checked e
  host : ∀ s, ofEnvironment env = .ok s → env.Says "PMAC_HOST" s.host
  /-- A number is the value of its variable, or the default. -/
  numbers : ∀ s, ofEnvironment env = .ok s → ∀ v : Number, v.Reads env (v.value s)
  positive : ∀ s, ofEnvironment env = .ok s →
    0 < s.timeoutMs ∧ 0 < s.connectTimeoutMs ∧ 0 < s.maxReplyBytes ∧
      0 < s.fastPeriodMs ∧ 0 < s.mediumPeriodMs ∧ 0 < s.slowPeriodMs
  /-- A setting is the same in all environments that have the same value for its variable. -/
  own : ∀ other s s', ofEnvironment env = .ok s → ofEnvironment other = .ok s' →
    ∀ v : Variable, env v.key = other v.key → v.field s = v.field s'
  /-- Environments that differ in one variable give settings that differ at most there. -/
  alone : ∀ other s s', ofEnvironment env = .ok s → ofEnvironment other = .ok s' →
    ∀ v : Variable, (∀ key, key ≠ v.key → env key = other key) →
      (∀ w, w ≠ v → w.field s = w.field s') ∧ (v.field s = v.field s' → s = s')

/-- **Settings are those of an environment without faults.** There are settings just if the host can
    be read and no variable that is looked at has a fault, and else the error is about the host or
    the first of these variables that has one. Every setting comes from its own variable. -/
theorem ofEnvironment_verdict (env : Environment) : Verdict env where
  missing := by
    constructor
    · -- a missing host is no fault, which would be blamed on a variable instead
      intro hmissing
      by_contra hhost
      have hjudged := judges_ofEnvironment hhost
      rw [hmissing] at hjudged
      obtain ⟨before, v, after, value, -, -, -, he⟩ := hjudged
      exact nomatch he
    · intro hsilent
      rw [ofEnvironment_eq, requiredHost_of_silent hsilent]
      rfl
  fails hhost := by
    have hjudged := judges_ofEnvironment hhost
    cases hresult : ofEnvironment env with
    | ok s =>
      rw [hresult] at hjudged
      exact ⟨nofun, fun ⟨v, hv, value, hfault⟩ => absurd hfault (hjudged v hv value)⟩
    | error e =>
      rw [hresult] at hjudged
      obtain ⟨before, v, after, value, hsplit, -, hfault, -⟩ := hjudged
      have hv : v ∈ Variable.checked := hsplit ▸ List.mem_append_cons_self
      exact ⟨fun _ => ⟨v, hv, value, hfault⟩, fun _ => ⟨e, rfl⟩⟩
  blames hhost e herror := by
    have hjudged := judges_ofEnvironment hhost
    rwa [herror] at hjudged
  host s hok := says_of_requiredHost (readFrom_of_ok hok).host
  numbers s hok v := (Number.reads_of_ok ((readFrom_of_ok hok).number v)).1
  positive s hok := by
    have hpositive : ∀ v : Number, v.isPositive = true → 0 < v.value s :=
      fun v => (Number.reads_of_ok ((readFrom_of_ok hok).number v)).2
    exact ⟨hpositive .timeout rfl, hpositive .connectTimeout rfl, hpositive .maxReplyBytes rfl,
      hpositive .fastPeriod rfl, hpositive .mediumPeriod rfl, hpositive .slowPeriod rfl⟩
  own other s s' hok hok' v := field_eq_of_key_eq (readFrom_of_ok hok) (readFrom_of_ok hok')
  alone other s s' hok hok' v hothers := by
    have hrest : ∀ w, w ≠ v → w.field s = w.field s' := fun w hw =>
      field_eq_of_key_eq (readFrom_of_ok hok) (readFrom_of_ok hok')
        (hothers w.key fun hkey => hw (Variable.key_injective hkey))
    -- with all fields the same the settings are the same
    refine ⟨hrest, fun hsame => eq_of_field fun w => ?_⟩
    by_cases hw : w = v
    · rw [hw, hsame]
    · exact hrest w hw

/-- A port that can be used and two faults behind it: the zero comes first. -/
example : ofEnvironment (fun key =>
    if key = "PMAC_HOST" then some (Utf8.encode "pmac")
    else if key = "PMAC_PORT" then some (Utf8.encode "+01025")
    else if key = "PMAC_TIMEOUT_MS" then some (Utf8.encode "00")
    else if key = "PMAC_FAST_PERIOD_MS" then some (Utf8.encode "1 ")
    else none) = .error (.invalid "PMAC_TIMEOUT_MS" "0") := by
  rfl

end Settings

end PmacPoll
