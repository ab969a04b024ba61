import PmacPoll.Gateway.State

/-!
# Logs of refreshes

A log says which listeners were registered and which refreshes were completed, in their order. It
tells what becomes of the listeners: each one hears once of every refresh of its tier that is
completed after it was registered, `audience`, and they hear in the order of registration, `calls`.
It tells what the records of the tiers say: `LastOf`, whose ordinals order the last completions of
different tiers, `LastOf.ordered`.
-/

namespace PmacPoll

variable {κ ω : Type}

/-- What concerns the listeners of a gateway. -/
inductive RefreshEvent (κ : Type) where
  | registered (listener : κ) (tier : Tier)
  /-- A refresh is completed, and the listeners of its tier are told of it. -/
  | completed (notice : Notice)

namespace RefreshEvent

/-! ### Logs -/

/-- The tier of a refresh that is completed. -/
def completion? : RefreshEvent κ → Option Tier
  | registered _ _ => none
  | completed notice => some notice.tier

/-- What the listeners of a tier are told. -/
def notice? (tier : Tier) : RefreshEvent κ → Option Notice
  | registered _ _ => none
  | completed notice => if notice.tier = tier then some notice else none

/-- The tiers of the refreshes that were completed. -/
def completions (log : List (RefreshEvent κ)) : List Tier :=
  log.filterMap completion?

/-- What the listeners of a tier were told. -/
def notices (tier : Tier) (log : List (RefreshEvent κ)) : List Notice :=
  log.filterMap (notice? tier)

variable [Listener κ ω]

/-- A listener that was told of some things. -/
def heard (listener : κ) (notices : List Notice) : κ :=
  notices.foldl (fun listener notice => (Listener.notify listener notice).1) listener

/-- The listeners of a tier in the order of their registration. Each has heard once of every refresh
    of the tier that was completed later. -/
def audience (tier : Tier) : List (RefreshEvent κ) → List κ
  | [] => []
  | registered listener t :: later =>
    if t = tier then heard listener (notices tier later) :: audience tier later
    else audience tier later
  | completed _ :: later => audience tier later

/-- The calls that an event brings after some others: of each listener of the tier one. -/
def callsAt (before : List (RefreshEvent κ)) : RefreshEvent κ → List (κ × Notice)
  | registered _ _ => []
  | completed notice => (audience notice.tier before).map fun listener => (listener, notice)

/-- The calls that some events bring after others. -/
def callsFrom (before : List (RefreshEvent κ)) : List (RefreshEvent κ) → List (κ × Notice)
  | [] => []
  | event :: later => callsAt before event ++ callsFrom (before ++ [event]) later

/-- All calls, in their order. -/
def calls (log : List (RefreshEvent κ)) : List (κ × Notice) :=
  callsFrom [] log

/-- What is reported in some calls. -/
def reports (calls : List (κ × Notice)) : List ω :=
  calls.flatMap fun call => (Listener.notify call.1 call.2).2

variable {tier : Tier} {log : List (RefreshEvent κ)}

/-- A listener hears the last notice last. -/
private theorem heard_append (listener : κ) (notices : List Notice) (notice : Notice) :
    heard listener (notices ++ [notice]) =
      (Listener.notify (heard listener notices) notice).1 := by
  rw [heard, List.foldl_append]
  rfl

omit [Listener κ ω] in
/-- A registration completes nothing. -/
theorem completions_registered (listener : κ) (t : Tier) :
    completions (log ++ [registered listener t]) = completions log := by
  rw [completions, List.filterMap_append]
  exact List.append_nil _

omit [Listener κ ω] in
/-- A completion comes after those before it. -/
theorem completions_completed (n : Notice) :
    completions (log ++ [completed n]) = completions log ++ [n.tier] := by
  rw [completions, List.filterMap_append]
  rfl

omit [Listener κ ω] in
/-- A notice reaches the listeners of its tier. -/
private theorem notices_completed (n : Notice) :
    notices tier (log ++ [completed n]) =
      notices tier log ++ if n.tier = tier then [n] else [] := by
  rw [notices, List.filterMap_append]
  by_cases h : n.tier = tier
  · rw [if_pos h]
    exact congrArg _ (List.filterMap_cons_some (if_pos h))
  · rw [if_neg h]
    exact congrArg _ (List.filterMap_cons_none (if_neg h))

/-- A listener that registers is the last of the audience of its tier, and has heard nothing yet. -/
theorem audience_registered (listener : κ) (t : Tier) :
    audience tier (log ++ [registered listener t]) =
      audience tier log ++ if t = tier then [listener] else [] := by
  -- the listener is added behind the whole log, so that no notice follows it
  induction log with
  | nil =>
    show (if t = tier then [listener] else []) = [] ++ if t = tier then [listener] else []
    rw [List.nil_append]
  | cons event later ih =>
    have hnotices : notices tier (later ++ [registered listener t]) = notices tier later := by
      rw [notices, List.filterMap_append]
      exact List.append_nil _
    cases event with
    | completed n => exact ih
    | registered other t' =>
      rw [List.cons_append, audience, audience, ih, hnotices]
      split <;> rfl

/-- A completion is heard by all listeners of its tier, each of them once. -/
theorem audience_completed (n : Notice) :
    audience tier (log ++ [completed n]) =
      if n.tier = tier then
        (audience tier log).map fun listener => (Listener.notify listener n).1
      else audience tier log := by
  -- who registered earlier in the log hears of it as the last of its notices
  induction log with
  | nil =>
    show [] = if n.tier = tier then [] else []
    split <;> rfl
  | cons event later ih =>
    cases event with
    | completed m => exact ih
    | registered other t =>
      rw [List.cons_append, audience, audience, ih, notices_completed]
      split
      · split
        · rw [heard_append, List.map_cons]
        · rw [List.append_nil]
      · rfl

/-- The calls of the last event come after all others, and are those that it makes after the whole
    log. -/
private theorem callsFrom_append (before log : List (RefreshEvent κ)) (event : RefreshEvent κ) :
    callsFrom before (log ++ [event]) =
      callsFrom before log ++ callsAt (before ++ log) event := by
  induction log generalizing before with
  | nil =>
    rw [List.append_nil]
    exact List.append_nil _
  | cons first later ih =>
    rw [List.cons_append, callsFrom, callsFrom, ih, List.append_assoc, List.append_assoc]
    rfl

/-- A registration calls nobody. -/
theorem reports_registered (listener : κ) (t : Tier) :
    (reports (calls (log ++ [registered listener t])) : List ω) = reports (calls log) := by
  rw [calls, callsFrom_append, callsAt, List.append_nil, calls]

/-- A completed refresh calls each listener of its tier once. -/
theorem reports_completed (n : Notice) :
    (reports (calls (log ++ [completed n])) : List ω) =
      reports (calls log) ++
        (audience n.tier log).flatMap fun listener => (Listener.notify listener n).2 := by
  rw [calls, callsFrom_append, List.nil_append, callsAt, reports, List.flatMap_append,
    List.flatMap_map]
  rfl

end RefreshEvent

/-! ### Records of completions -/

/-- The record of a tier after some completions has the ordinal of the last one of the tier; there
    is none if there was no completion of the tier. -/
def LastOf (completions : List Tier) (tier : Tier) : Option TierUpdate → Prop
  | none => tier ∉ completions
  | some update => ∃ before after, completions = before ++ tier :: after ∧ tier ∉ after ∧
      update.sequence = before.length + 1

section LastOf

variable {completions : List Tier} {tier other : Tier} {record : Option TierUpdate}

/-- Where a list is cut twice, the later cut is in what follows the earlier one. -/
private theorem exists_between {α : Type} {before before' after after' : List α} {a b : α}
    (h : before ++ a :: after = before' ++ b :: after') (hlt : before.length < before'.length) :
    ∃ between, after = between ++ b :: after' := by
  rcases List.append_eq_append_iff.mp h with ⟨rest, rfl, hrest⟩ | ⟨rest, rfl, -⟩
  · cases rest with
    | nil => simp at hlt
    | cons first between => exact ⟨between, (List.cons.inj hrest).2⟩
  · rw [List.length_append] at hlt
    omega

/-- The record of a completion is that of the last one. -/
theorem lastOf_self (update : TierUpdate) (h : update.sequence = completions.length + 1) :
    LastOf (completions ++ [tier]) tier (some update) :=
  ⟨completions, [], rfl, List.not_mem_nil, h⟩

/-- The completion of another tier leaves the record as it is. -/
theorem LastOf.append_other (h : LastOf completions tier record) (hother : other ≠ tier) :
    LastOf (completions ++ [other]) tier record := by
  have hnot : tier ∉ [other] := fun hmem => hother (List.mem_singleton.mp hmem).symm
  cases record with
  | none => exact fun hmem => (List.mem_append.mp hmem).elim h hnot
  | some update =>
    obtain ⟨before, after, rfl, hafter, hsequence⟩ := h
    refine ⟨before, after ++ [other], List.append_assoc .., fun hmem => ?_, hsequence⟩
    exact (List.mem_append.mp hmem).elim hafter hnot

/-- There is no record until the first completion. -/
theorem LastOf.eq_none_iff (h : LastOf completions tier record) :
    record = none ↔ tier ∉ completions := by
  cases record with
  | none => exact iff_of_true rfl h
  | some update =>
    obtain ⟨before, after, rfl, -⟩ := h
    exact iff_of_false nofun fun hnot =>
      hnot (List.mem_append_right before List.mem_cons_self)

/-- Records of different tiers have different numbers, in the order of their completions. -/
theorem LastOf.ordered {u v : TierUpdate} (hu : LastOf completions tier (some u))
    (hv : LastOf completions other (some v)) (hne : tier ≠ other) :
    u.sequence ≠ v.sequence ∧ (u.sequence < v.sequence →
      ∃ earlier between later, completions = earlier ++ tier :: (between ++ other :: later) ∧
        tier ∉ between ++ other :: later ∧ other ∉ later) := by
  obtain ⟨before, after, hcut, hafter, hsequence⟩ := hu
  obtain ⟨before', after', hcut', hafter', hsequence'⟩ := hv
  have htier : completions[before.length]? = some tier := by rw [hcut]; simp
  have hother : completions[before'.length]? = some other := by rw [hcut']; simp
  constructor
  · -- the same number would be the number of two tiers at once
    intro hsame
    have hlength : before.length = before'.length := by omega
    rw [hlength, hother] at htier
    exact hne (Option.some.inj htier).symm
  · -- the record with the smaller number is of the earlier completion
    intro hlt
    obtain ⟨between, rfl⟩ := exists_between (hcut.symm.trans hcut') (by omega)
    exact ⟨before, between, after', hcut, hafter, hafter'⟩

/-- The `i`-th of some completions of different tiers is the last one of its tier. -/
theorem LastOf.getElem {done : List Tier} (hdone : done.Nodup) {i : Nat} (hi : i < done.length)
    (h : LastOf (completions ++ done) done[i] record) :
    ∃ update, record = some update ∧ update.sequence = completions.length + i + 1 := by
  cases record with
  | none => exact absurd (List.mem_append_right _ (List.getElem_mem hi)) h
  | some update =>
    refine ⟨update, rfl, ?_⟩
    obtain ⟨before, after, hcut, hafter, hsequence⟩ := h
    have hlast : completions ++ done =
        (completions ++ done.take i) ++ done[i] :: done.drop (i + 1) := by
      rw [List.append_assoc, ← List.drop_eq_getElem_cons, List.take_append_drop]
    have hlength : (completions ++ done.take i).length = completions.length + i := by
      rw [List.length_append, List.length_take_of_le (Nat.le_of_lt hi)]
    have hlater : done[i] ∉ done.drop (i + 1) := by
      have hdrop : (done.drop i).Nodup := List.Pairwise.drop hdone
      rw [List.drop_eq_getElem_cons hi] at hdrop
      exact (List.nodup_cons.mp hdrop).1
    -- neither of the two places can be behind the other
    rcases Nat.lt_trichotomy before.length (completions ++ done.take i).length with hlt | heq | hlt
    · obtain ⟨between, rfl⟩ := exists_between (hcut.symm.trans hlast) hlt
      exact absurd (List.mem_append_right between List.mem_cons_self) hafter
    · rw [hsequence, heq, hlength]
    · obtain ⟨between, hbetween⟩ := exists_between (hlast.symm.trans hcut) hlt
      rw [hbetween] at hlater
      exact absurd (List.mem_append_right between List.mem_cons_self) hlater

end LastOf

end PmacPoll
