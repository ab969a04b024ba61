import PmacPoll.ChangeLog
import PmacPoll.Proofs.DeviceExchange
import PmacPoll.Proofs.GatewayRuns
import PmacPoll.Proofs.TableContents

/-!
# A refresh loses its link or stores its replies

No value is stored before all replies of a refresh are there. So a failure of the link, at whatever
command and at whatever step of its exchange, leaves all values, records and listeners as they
were; and nothing that a refresh does reaches another tier.

The main result is `updateFrom_atomic`.
-/

namespace PmacPoll.Gateway

variable {σ κ ω : Type} [Transport σ] [Listener κ ω]

/-- What a refresh leaves behind that failed with an error of the link. -/
structure LinkLost (tier : Tier) (e : GatewayError) (g g' : Gateway σ κ ω) : Prop where
  /-- All variables and their values, all listeners, and all records of refreshes are as before. -/
  tiers : g'.tiers = g.tiers
  sequence : g'.sequence = g.sequence
  /-- No listener was called. -/
  journal : g'.journal = g.journal
  linkState : g'.linkState = .disconnected
  /-- Without a connection nothing was handed to the channel. With one, the first few commands of
      the tier were, in order, and the last of them failed. -/
  handed : (g.linkState = .disconnected ∧ e = .disconnected ∧ g'.channel = g.channel ∧
      g'.statistics = g.statistics) ∨
    (g.linkState = .connected ∧ ∃ handed cause, handed <+: (g.table tier).commands ∧
      Channel.Broken cause g.channel handed g'.channel ∧ e = .ofLink cause ∧
      g'.statistics.messages = g.statistics.messages + UInt64.ofNat handed.length)

/-- An update that fails with an error of the link. -/
theorem linkLost_of_updateFrom {g g' : Gateway σ κ ω} {taken : Nat} {tier : Tier}
    {e : GatewayError} (hsettled : g.Settled)
    (h : updateFrom taken tier g = .error (.failed e) g') (hlink : e.isLinkFailure = true) :
    LinkLost tier e g g' := by
  obtain ⟨g₁, ⟨locks, count, rfl⟩, hcases⟩ := updateFrom_failed h
  rcases hcases with ⟨g₂, started, hall, rfl⟩ | ⟨g₂, started, replies, hall, herror, rfl⟩
  · have hdata := transactAll_sameData (g.table tier).commands
      { g with locks, suppressCount := count }
    rw [hall] at hdata
    rcases transactAll_failed hall with ⟨hgone, rfl, rfl⟩ | ⟨hconnected, hstate, hhanded⟩
    · have hdisconnected : g.linkState = .disconnected := by
        cases hstate : g.linkState with
        | disconnected => rfl
        | connecting => exact absurd hstate hsettled
        | connected =>
          have hconnected : g.isConnected = true := (isConnected_iff g).mpr hstate
          exact absurd (hconnected.symm.trans hgone) (by decide)
      exact ⟨rfl, rfl, rfl, hdisconnected, Or.inl ⟨hdisconnected, rfl, rfl, rfl⟩⟩
    · exact ⟨hdata.tiers, hdata.sequence, hdata.journal, hstate,
        Or.inr ⟨(isConnected_iff g).mp hconnected, hhanded⟩⟩
  · -- All replies were there, so what failed is not the link.
    rw [isLinkFailure_of_stored herror] at hlink
    simp at hlink

/-- **A refresh is atomic with respect to its link, and confined to its tier.** For every gateway
    that clients can be faced with, over every transport: if a refresh fails with an error of the
    link then it has stored nothing, and whatever it comes to, the other tiers are as before. -/
theorem updateFrom_atomic {g : Gateway σ κ ω} (hreachable : g.Reachable) (taken : Nat)
    (tier : Tier) :
    (∀ e g', updateFrom taken tier g = .error (.failed e) g' → e.isLinkFailure = true →
      LinkLost tier e g g') ∧
    ∀ other, other ≠ tier →
      (finalState (updateFrom taken tier g)).tiers.get other = g.tiers.get other :=
  ⟨fun _ _ h hlink => linkLost_of_updateFrom (settled_of_reachable hreachable) h hlink,
    fun _ hne => updateFrom_get_ne taken hne g⟩

/-- A gateway that takes its device for connected, with one name to ask for. -/
def cutOffGateway : Gateway Device ChangeLog Change :=
  addVariable .fast "P1" (.new { connected := false } {} 0 true)

/-- The device is cut off before a refresh, whose only command fails at its first write. -/
theorem updateFrom_atomic_cutOff : ∃ e g',
    updateFrom 0 .fast cutOffGateway = .error (.failed e) g' ∧
      LinkLost .fast e cutOffGateway g' := by
  have hreachable : cutOffGateway.Reachable :=
    .step (.addVariable .fast "P1") (.new { connected := false } {} 0 true) rfl
  have hcommands : (cutOffGateway.table .fast).commands = ["P1"] :=
    (VariableTable.add_empty "P1").2
  have hwrite := Device.writeRead_disconnected (c := cutOffGateway.channel) rfl rfl
    (Utf8.encode "P1")
  obtain ⟨e, g', hrun, hlink⟩ : ∃ e g',
      updateFrom 0 .fast cutOffGateway = .error (.failed e) g' ∧ e.isLinkFailure = true := by
    -- nothing is suppressed, and there are no locks to take
    have hrefresh : refreshUnlessSuppressed .fast (cutOffGateway.locked 0) =
        refresh .fast cutOffGateway := by
      rw [refreshUnlessSuppressed_eq]
      rfl
    have hfree : (takeLocks (cutOffGateway.locks.drop 0)).2 = true := rfl
    have hconnected : cutOffGateway.isConnected = true := rfl
    refine ⟨.transport "device disconnected", finalState (updateFrom 0 .fast cutOffGateway), ?_,
      rfl⟩
    rw [updateFrom_eq, if_pos hfree, hrefresh, refresh_eq, hcommands,
      if_neg (List.cons_ne_nil "P1" []), transactAll_cons, transact_eq, if_pos hconnected,
      exchange_eq, hwrite]
    rfl
  exact ⟨e, g', hrun, (updateFrom_atomic hreachable 0 .fast).1 e g' hrun hlink⟩

end PmacPoll.Gateway
