import PmacPoll.ChangeLog
import PmacPoll.Proofs.DeviceExchange
import PmacPoll.Proofs.DeviceReplies
import PmacPoll.Proofs.GatewayRuns

/-!
# Every session is told of once

A session begins when a gateway is made on a connection that stands, and whenever the empty command
gets its reply on a transport that was connected anew. Its beginning is told to the first client who
asks how the connection is and learns that it stands, and to nobody else.

`Chronicle` is a run with the history of what concerns its sessions. `Follows` says what a gateway
knows of that history. A quiet operation leaves it as it is, `Quiet.follows`; checking the
connection may begin a session, `follows_ensureConnected`; and to tell of one is to take the flag
down, `follows_told`. The main result is `chronicle_reports`.
-/

namespace PmacPoll.Gateway

variable {σ κ ω : Type}

/-! ### Histories -/

/-- What concerns the sessions of a connection. -/
inductive SessionEvent where
  /-- A session begins: the probe after connecting anew got its reply. -/
  | began
  /-- A client is told how the connection is. -/
  | told (status : ConnectionStatus)
  deriving DecidableEq, Repr

/-- The part of a history that belongs to the present session. -/
def presentSession (history : List SessionEvent) : List SessionEvent :=
  (history.reverse.takeWhile (· != .began)).reverse

/-- Nobody has been told in the present session that the connection stands. -/
def Untold (history : List SessionEvent) : Prop :=
  ∀ status, .told status ∈ presentSession history → status.connected = false

/-- The beginning of a session is not part of what happens in it. -/
private theorem presentSession_began (history : List SessionEvent) :
    presentSession (history ++ [.began]) = [] := by
  simp [presentSession]

/-- What a client is told belongs to the session it is told in. -/
private theorem presentSession_told (history : List SessionEvent) (status : ConnectionStatus) :
    presentSession (history ++ [.told status]) = presentSession history ++ [.told status] := by
  simp [presentSession]

/-- At its beginning a session is untold. -/
private theorem untold_began (history : List SessionEvent) : Untold (history ++ [.began]) := by
  intro status h
  rw [presentSession_began] at h
  exact nomatch h

/-- A session stays untold as long as clients only learn that there is no connection. -/
private theorem untold_told {history : List SessionEvent} {status : ConnectionStatus} :
    Untold (history ++ [.told status]) ↔ Untold history ∧ status.connected = false := by
  simp only [Untold, presentSession_told, List.mem_append, List.mem_singleton,
    SessionEvent.told.injEq]
  constructor
  · intro h
    exact ⟨fun earlier hearlier => h earlier (Or.inl hearlier), h status (Or.inr rfl)⟩
  · rintro ⟨h, hstatus⟩ earlier (hearlier | rfl)
    · exact h earlier hearlier
    · exact hstatus

/-- Whoever was told of the connection was told of a new session just if the connection stood and
    nobody had been told so before in that session. -/
def ToldOnce (connected : Bool) (history : List SessionEvent) : Prop :=
  ∀ before status, before ++ [.told status] <+: history →
    (status.newConnection = true ↔ status.connected = true ∧ Untold before) ∧
    (status.connected = true → connected = true ∨ .began ∈ before)

/-- Without events nothing was told wrongly. -/
private theorem toldOnce_nil (connected : Bool) : ToldOnce connected [] := by
  intro before status h
  simp at h

/-- The beginning of a session tells nobody anything. -/
private theorem ToldOnce.began {connected : Bool} {history : List SessionEvent}
    (h : ToldOnce connected history) : ToldOnce connected (history ++ [.began]) := by
  intro before status hprefix
  rcases List.prefix_concat_iff.mp hprefix with heq | hprefix
  · simp at heq
  · exact h before status hprefix

/-- A client is told rightly if what it learns is right for the history so far. -/
theorem ToldOnce.told {connected : Bool} {history : List SessionEvent} {status : ConnectionStatus}
    (h : ToldOnce connected history)
    (hnew : status.newConnection = true ↔ status.connected = true ∧ Untold history)
    (hbegun : status.connected = true → connected = true ∨ .began ∈ history) :
    ToldOnce connected (history ++ [.told status]) := by
  intro before status' hprefix
  rcases List.prefix_concat_iff.mp hprefix with heq | hprefix
  · obtain ⟨rfl, hlast⟩ := List.append_inj' heq rfl
    obtain rfl := SessionEvent.told.inj (List.cons.inj hlast).1
    exact ⟨hnew, hbegun⟩
  · exact h before status' hprefix

/-! ### Runs with their histories -/

section Chronicle

variable [Transport σ]

/-- Does the empty command get its reply on the transport connected anew? -/
def probeAnswered (g : Gateway σ κ ω) : Bool :=
  match Channel.reconnect g.channel with
  | .ok () channel =>
    match Channel.writeRead (Utf8.encode "") channel with
    | .ok _ _ => true
    | .error _ _ => false
  | .error _ _ => false

/-- Checking the connection begins a session if it did not stand and the probe gets its reply. -/
def checkEvents (g : Gateway σ κ ω) : List SessionEvent :=
  if !g.isConnected && g.probeAnswered then [.began] else []

/-- What an operation adds to the history. -/
def Operation.events (op : Operation κ) (g : Gateway σ κ ω) : List SessionEvent :=
  match op with
  | .checkConnection => checkEvents g
  | .status =>
    match Gateway.status g with
    | .ok told _ => checkEvents g ++ [.told told]
    | .error _ _ => checkEvents g
  | _ => []

/-- A run from one gateway to another, with its history. -/
inductive Chronicle [Listener κ ω] (start : Gateway σ κ ω) :
    List SessionEvent → Gateway σ κ ω → Prop where
  | start : Chronicle start [] start
  | operation {history : List SessionEvent} {g g' : Gateway σ κ ω} (op : Operation κ) :
      Chronicle start history g → ended (op.run g) = some g' →
      Chronicle start (history ++ op.events g) g'
  | cycle {history : List SessionEvent} {g g' : Gateway σ κ ω} (now : Nat) (s : Scheduler) :
      Chronicle start history g → ended (s.cycle now g) = some g' →
      Chronicle start (history ++ checkEvents g) g'
  /-- Between two operations anything may happen on the link, and anybody may take or release an
      outside lock. -/
  | outside {history : List SessionEvent} {g : Gateway σ κ ω} (link : σ) (locks : List Bool) :
      Chronicle start history g →
      Chronicle start history { g with channel := { g.channel with link }, locks }

end Chronicle

/-! ### Quiet operations -/

/-- Whatever is counted of a failure, it is not a reconnection. -/
private theorem reconnects_countCause (cause : LinkError) (counters : Counters) :
    (countCause cause counters).reconnects = counters.reconnects := by
  unfold countCause
  split
  · rfl
  · split <;> rfl

/-- Storing replies counts errors, and no reconnections. -/
private theorem reconnects_replies (s : Stored) (replies : List (String × Reply)) :
    (s.replies replies).counters.reconnects = s.counters.reconnects := by
  obtain ⟨_, _, hcounters⟩ := s.counters_replies replies
  rw [hcounters]

/-- No session began, and if the connection stands then it stood before. -/
structure SameSession (g g' : Gateway σ κ ω) : Prop where
  session : g'.session = g.session
  reconnects : g'.counters.reconnects = g.counters.reconnects
  connected : g'.linkState = .connected →
    g.linkState = .connected ∧ (g'.newConnection = true → g.newConnection = true)

/-- Nothing done stays in the session. -/
theorem SameSession.refl (g : Gateway σ κ ω) : SameSession g g :=
  ⟨rfl, rfl, fun h => ⟨h, id⟩⟩

/-- What stays in the session one after another stays in it. -/
theorem SameSession.trans {g₁ g₂ g₃ : Gateway σ κ ω} (h : SameSession g₁ g₂)
    (h' : SameSession g₂ g₃) : SameSession g₁ g₃ where
  session := h'.session.trans h.session
  reconnects := h'.reconnects.trans h.reconnects
  connected hconnected :=
    have ⟨hbefore, hnew⟩ := h'.connected hconnected
    ⟨(h.connected hbefore).1, (h.connected hbefore).2 ∘ hnew⟩

section Quiet

variable [Transport σ] [Listener κ ω] {g g' : Gateway σ κ ω} {deeds : List Deed}

/-- A session begins only where the transport is connected anew. -/
private theorem Step.sameSession (h : Step g deeds g') (hdeeds : ∀ ok, .reconnect ok ∉ deeds) :
    SameSession g g' := by
  cases h with
  | considered tier =>
    obtain ⟨count, h⟩ := snd_suppresses tier g
    rw [h]
    exact ⟨rfl, rfl, fun h => ⟨h, id⟩⟩
  | told => exact ⟨rfl, rfl, fun h => ⟨h, nofun⟩⟩
  | completed started =>
    -- the replies add to the counters of errors alone
    exact ⟨rfl, reconnects_replies _ _, fun h => ⟨h, id⟩⟩
  | replied _ hexchange =>
    obtain ⟨x, channel, -, -, rfl⟩ := exchange_ok hexchange
    exact ⟨rfl, rfl, fun h => ⟨h, id⟩⟩
  | lost _ hexchange =>
    obtain ⟨cause, channel, -, -, rfl⟩ := exchange_failed hexchange
    exact ⟨rfl, reconnects_countCause _ _, nofun⟩
  | refused => exact absurd List.mem_cons_self (hdeeds false)
  | proved | unproved => exact absurd List.mem_cons_self (hdeeds true)
  | _ => exact ⟨rfl, rfl, fun h => ⟨h, id⟩⟩

/-- A run that does not connect stays in the session. -/
private theorem Steps.sameSession (h : Steps g deeds g') (hdeeds : ∀ ok, .reconnect ok ∉ deeds) :
    SameSession g g' := by
  induction h with
  | refl => exact .refl _
  | head hstep _ ih =>
    have hfirst := hstep.sameSession fun ok hmem => hdeeds ok (List.mem_append_left _ hmem)
    exact hfirst.trans (ih fun ok hmem => hdeeds ok (List.mem_append_right _ hmem))

end Quiet

/-! ### What a gateway knows of its history -/

/-- A gateway that was made connected or not, and what it knows of the history since then. -/
structure Follows (connected : Bool) (history : List SessionEvent) (g : Gateway σ κ ω) :
    Prop where
  settled : g.Settled
  session : g.session = history.count .began
  reconnects : g.counters.reconnects = UInt64.ofNat (history.count .began)
  begun : g.linkState = .connected → connected = true ∨ .began ∈ history
  /-- On a connection that stands the flag is up until somebody is told. -/
  untold : g.linkState = .connected → (g.newConnection = true ↔ Untold history)

section Follows

variable {connected : Bool} {history : List SessionEvent} {g g' : Gateway σ κ ω}

/-- A gateway that was just made knows of no event, and its flag is up just if it is connected. -/
theorem follows_new (link : σ) (config : Channel.Config) (locks : Nat) (connected : Bool) :
    Follows connected [] (new link config locks connected : Gateway σ κ ω) where
  settled := settled_new link config locks connected
  session := rfl
  reconnects := rfl
  begun h := by
    cases connected with
    | true => exact Or.inl rfl
    | false => exact nomatch h
  untold h := by
    cases connected with
    | true => exact ⟨fun _ => nofun, fun _ => rfl⟩
    | false => exact nomatch h

/-- To be told of a session takes the flag down. -/
theorem follows_told {status : ConnectionStatus} (h : Follows connected history g)
    (hstatus : status.connected = true) :
    Follows connected (history ++ [.told status]) { g with newConnection := false } where
  settled := h.settled
  session := by rw [h.session]; simp
  reconnects := by rw [h.reconnects]; simp
  begun hconnected := (h.begun hconnected).imp_right (List.mem_append_left _)
  untold _ := by
    rw [untold_told, hstatus]
    exact ⟨nofun, fun h => nomatch h.2⟩

/-- A client that learns that there is no connection leaves the flag alone. -/
theorem follows_told_unconnected {status : ConnectionStatus} (h : Follows connected history g)
    (hstatus : status.connected = false) :
    Follows connected (history ++ [.told status]) g where
  settled := h.settled
  session := by rw [h.session]; simp
  reconnects := by rw [h.reconnects]; simp
  begun hconnected := (h.begun hconnected).imp_right (List.mem_append_left _)
  untold hconnected := by
    rw [untold_told, h.untold hconnected]
    exact ⟨fun huntold => ⟨huntold, hstatus⟩, And.left⟩

/-- A connection that does not stand asks for nothing more than the counts. -/
theorem Follows.disconnected (h : Follows connected history g) (hsession : g'.session = g.session)
    (hreconnects : g'.counters.reconnects = g.counters.reconnects)
    (hstate : g'.linkState = .disconnected) : Follows connected history g' where
  settled := by rw [Settled, hstate]; exact nofun
  session := hsession.trans h.session
  reconnects := hreconnects.trans h.reconnects
  begun hconnected := nomatch hstate.symm.trans hconnected
  untold hconnected := nomatch hstate.symm.trans hconnected

/-- A session that begins has not been told of. -/
private theorem Follows.began (h : Follows connected history g) (hsession : g'.session = g.session)
    (hreconnects : g'.counters.reconnects = g.counters.reconnects) :
    Follows connected (history ++ [.began]) g'.beginSession where
  settled := nofun
  session := by
    show g'.session + 1 = _
    rw [hsession, h.session]
    simp
  reconnects := by
    show g'.counters.reconnects + 1 = _
    rw [hreconnects, h.reconnects, List.count_append, List.count_singleton_self, UInt64.ofNat_add]
    rfl
  begun _ := Or.inr (by simp)
  untold _ := ⟨fun _ => untold_began history, fun _ => rfl⟩

variable [Transport σ]

/-- A quiet operation adds nothing to the history. -/
theorem Quiet.follows [Listener κ ω] {deeds : List Deed} (h : Quiet g deeds g')
    (hg : Follows connected history g) : Follows connected history g' := by
  have hsame := h.steps.sameSession h.undialled
  refine ⟨h.steps.settled hg.settled, hsame.session.trans hg.session,
    hsame.reconnects.trans hg.reconnects, fun hconnected => ?_, fun hconnected => ?_⟩
  · exact hg.begun (hsame.connected hconnected).1
  · -- the flag was neither taken down nor put up
    obtain ⟨hbefore, hnew⟩ := hsame.connected hconnected
    rw [← hg.untold hbefore]
    exact ⟨hnew, h.untold⟩

/-- On a connection that stands there is nothing to check. -/
private theorem checkEvents_of_connected (h : g.isConnected = true) : checkEvents g = [] := by
  simp [checkEvents, h]

/-- Checking the connection may begin a session. -/
theorem follows_ensureConnected {stands : Bool} (hg : Follows connected history g)
    (h : ensureConnected g = .ok stands g') :
    Follows connected (history ++ checkEvents g) g' := by
  rw [ensureConnected_eq] at h
  split at h
  · next hconnected =>
    obtain ⟨-, rfl⟩ := EStateM.Result.ok.inj h
    rw [checkEvents_of_connected hconnected, List.append_nil]
    exact hg
  · next hconnected =>
    rw [Bool.not_eq_true] at hconnected
    cases hdial : Channel.reconnect g.channel with
    | error stop channel =>
      -- no probe was sent, so no session begins
      have hevents : checkEvents g = [] := by simp [checkEvents, probeAnswered, hdial]
      rw [hdial] at h
      rw [hevents, List.append_nil]
      cases stop with
      | unfinished => exact nomatch h
      | failed cause =>
        obtain ⟨-, rfl⟩ := EStateM.Result.ok.inj h
        exact hg.disconnected rfl rfl rfl
    | ok u channel =>
      simp only [hdial] at h
      cases hprobe : exchange "" { g with linkState := .connecting, channel } with
      | ok reply g₁ =>
        rw [hprobe] at h
        obtain ⟨-, rfl⟩ := EStateM.Result.ok.inj h
        obtain ⟨x, channel', hwrite, -, rfl⟩ := exchange_ok hprobe
        have hevents : checkEvents g = [.began] := by
          simp [checkEvents, probeAnswered, hdial, hwrite, hconnected]
        rw [hevents]
        exact hg.began rfl rfl
      | error stop g₁ =>
        rw [hprobe] at h
        cases stop with
        | unfinished => exact nomatch h
        | failed cause =>
          obtain ⟨-, rfl⟩ := EStateM.Result.ok.inj h
          obtain ⟨cause', channel', hwrite, -, rfl⟩ := exchange_failed hprobe
          -- the probe was sent and did not get its reply
          have hevents : checkEvents g = [] := by
            simp [checkEvents, probeAnswered, hdial, hwrite]
          rw [hevents, List.append_nil]
          exact hg.disconnected rfl (reconnects_countCause _ _) rfl

/-- Checking the connection does not take the flag down. -/
private theorem newConnection_ensureConnected {stands : Bool}
    (h : ensureConnected g = .ok stands g')
    (hnew : g.newConnection = true) : g'.newConnection = true := by
  rw [ensureConnected_eq] at h
  -- only a probe that is answered sets the flag, and nothing here clears it
  split at h
  · obtain ⟨-, rfl⟩ := EStateM.Result.ok.inj h
    exact hnew
  · split at h
    · split at h
      · obtain ⟨-, rfl⟩ := EStateM.Result.ok.inj h
        rfl
      · next hprobe =>
        obtain ⟨-, rfl⟩ := EStateM.Result.ok.inj h
        obtain ⟨cause, channel, -, -, rfl⟩ := exchange_failed hprobe
        exact hnew
      · exact nomatch h
    · obtain ⟨-, rfl⟩ := EStateM.Result.ok.inj h
      exact hnew
    · exact nomatch h

/-- Telling of the connection never fails: that there is none is an answer. -/
private theorem ok_of_ended_status (h : ended (status g) = some g') :
    ∃ told, status g = .ok told g' := by
  rw [status_eq] at h ⊢
  -- a report waits for the check of the connection, which has no failure
  cases hrun : ensureConnected g with
  | ok stands g₁ =>
    rw [hrun] at h
    cases stands <;> (obtain rfl := Option.some.inj h; exact ⟨_, rfl⟩)
  | error stop g₁ =>
    cases stop with
    | failed e => exact absurd hrun (ensureConnected_ne_failed g g₁ e)
    | unfinished =>
      rw [hrun] at h
      exact nomatch h

end Follows

/-! ### Operations and cycles -/

section Operations

variable [Transport σ] [Listener κ ω] {connected : Bool} {history : List SessionEvent}
  {g g' : Gateway σ κ ω}

/-- A cycle is its check of the connection, and quiet after that. -/
theorem follows_cycle {now : Nat} {s : Scheduler} (hg : Follows connected history g)
    (h : ended (s.cycle now g) = some g') :
    Follows connected (history ++ checkEvents g) g' := by
  obtain ⟨stands, g₁, deeds, hok, hquiet⟩ := cycle_ended h
  exact hquiet.follows (follows_ensureConnected hg hok)

omit [Transport σ] [Listener κ ω] in
/-- A check of the connection tells nobody. -/
theorem ToldOnce.checked [Transport σ] (h : ToldOnce connected history) (g : Gateway σ κ ω) :
    ToldOnce connected (history ++ checkEvents g) := by
  unfold checkEvents
  split
  · exact h.began
  · rw [List.append_nil]
    exact h

omit [Listener κ ω] in
/-- Whoever asks how the connection is gets the flag if nobody got it before in the session. -/
theorem follows_status {told : ConnectionStatus} (hg : Follows connected history g)
    (honce : ToldOnce connected history) (h : status g = .ok told g') :
    Follows connected (history ++ (checkEvents g ++ [.told told])) g' ∧
      ToldOnce connected (history ++ (checkEvents g ++ [.told told])) := by
  have hchecked := honce.checked g
  rw [status_eq] at h
  rw [← List.append_assoc]
  cases hrun : ensureConnected g with
  | error stop g₁ =>
    rw [hrun] at h
    exact nomatch h
  | ok stands g₁ =>
    have hfollows := follows_ensureConnected hg hrun
    rw [hrun] at h
    cases stands with
    | true =>
      obtain ⟨rfl, rfl⟩ := EStateM.Result.ok.inj h
      have hconnected : g₁.linkState = .connected := (connected_of_ensureConnected hrun).mpr rfl
      refine ⟨follows_told hfollows rfl, hchecked.told ?_ fun _ => hfollows.begun hconnected⟩
      rw [← hfollows.untold hconnected]
      -- the flag is up just if nobody was told of the session before, and then it goes down
      exact ⟨fun hnew => ⟨rfl, hnew⟩, And.right⟩
    | false =>
      obtain ⟨rfl, rfl⟩ := EStateM.Result.ok.inj h
      exact ⟨follows_told_unconnected hfollows rfl, hchecked.told ⟨nofun, fun h => h.1⟩ nofun⟩

/-- One operation adds its events, and what a gateway knows keeps up with them. -/
theorem follows_operation {op : Operation κ} (hg : Follows connected history g)
    (honce : ToldOnce connected history) (h : ended (op.run g) = some g') :
    Follows connected (history ++ op.events g) g' ∧
      ToldOnce connected (history ++ op.events g) := by
  -- the two operations that check the connection are those with events
  cases hop : op.checks with
  | false =>
    obtain ⟨deeds, hquiet⟩ := quiet_run hop h
    have hevents : op.events g = [] := by
      cases op with
      | checkConnection | status => exact nomatch hop
      | _ => rfl
    rw [hevents, List.append_nil]
    exact ⟨hquiet.follows hg, honce⟩
  | true =>
    cases op with
    | checkConnection =>
      obtain ⟨stands, hok⟩ := ok_of_ended_ensureConnected ((ended_bind_pure _ _ g).symm.trans h)
      exact ⟨follows_ensureConnected hg hok, honce.checked g⟩
    | status =>
      have hstatus : ended (status g) = some g' := (ended_bind_pure _ _ g).symm.trans h
      obtain ⟨told, htold⟩ := ok_of_ended_status hstatus
      have hevents : Operation.events (.status : Operation κ) g =
          checkEvents g ++ [.told told] := by
        rw [Operation.events, htold]
      rw [hevents]
      exact follows_status hg honce htold
    | _ => exact nomatch hop

/-- An operation that tells nobody of the connection does not take the flag down. -/
private theorem newConnection_run {op : Operation κ} (hop : op ≠ .status)
    (h : ended (op.run g) = some g') (hnew : g.newConnection = true) : g'.newConnection = true := by
  -- a quiet operation reports nothing, and of the two others one is excluded
  cases hchecks : op.checks with
  | false =>
    obtain ⟨deeds, hquiet⟩ := quiet_run hchecks h
    exact hquiet.untold hnew
  | true =>
    cases op with
    | checkConnection =>
      obtain ⟨stands, hok⟩ := ok_of_ended_ensureConnected ((ended_bind_pure _ _ g).symm.trans h)
      exact newConnection_ensureConnected hok hnew
    | status => exact absurd rfl hop
    | _ => exact nomatch hchecks

/-- Nor does a cycle of the scheduler. -/
private theorem newConnection_cycle {now : Nat} {s : Scheduler}
    (h : ended (s.cycle now g) = some g')
    (hnew : g.newConnection = true) : g'.newConnection = true := by
  obtain ⟨stands, g₁, deeds, hok, hquiet⟩ := cycle_ended h
  exact hquiet.untold (newConnection_ensureConnected hok hnew)

end Operations

/-! ### Every run -/

section Run

variable [Transport σ] [Listener κ ω] {link : σ} {config : Channel.Config} {locks : Nat}
  {connected : Bool} {history : List SessionEvent} {g : Gateway σ κ ω}

/-- So it is in a run, one operation or cycle after another. -/
theorem follows_chronicle (h : Chronicle (.new link config locks connected) history g) :
    Follows connected history g ∧ ToldOnce connected history := by
  induction h with
  | start => exact ⟨follows_new link config locks connected, toldOnce_nil connected⟩
  | operation op _ hend ih => exact follows_operation ih.1 ih.2 hend
  | @cycle history g g' now s _ hend ih => exact ⟨follows_cycle ih.1 hend, ih.2.checked g⟩
  | outside link locks _ ih =>
    obtain ⟨⟨hsettled, hsession, hreconnects, hbegun, huntold⟩, honce⟩ := ih
    exact ⟨⟨hsettled, hsession, hreconnects, hbegun, huntold⟩, honce⟩

/-- **Every session is told of once.** A gateway is made, connected or not, over any transport.
    Whoever asks it how the connection is, in any run, learns of a new session just if the
    connection stands and nobody was told so before in that session. There is a session then: it
    began when the gateway was made, or when a probe got its reply, and these probes are what the
    number of the session and the counter of reconnections count. No operation but the one that
    tells of the connection takes the flag down. -/
theorem chronicle_reports (h : Chronicle (.new link config locks connected) history g) :
    (∀ before status, before ++ [.told status] <+: history →
      (status.newConnection = true ↔ status.connected = true ∧
        ∀ earlier, .told earlier ∈ presentSession before → earlier.connected = false) ∧
      (status.connected = true → connected = true ∨ .began ∈ before)) ∧
    g.session = history.count .began ∧
    g.counters.reconnects = UInt64.ofNat (history.count .began) ∧
    (∀ (op : Operation κ) g', op ≠ .status → ended (op.run g) = some g' →
      g.newConnection = true → g'.newConnection = true) ∧
    ∀ now (s : Scheduler) g', ended (s.cycle now g) = some g' →
      g.newConnection = true → g'.newConnection = true := by
  obtain ⟨hfollows, honce⟩ := follows_chronicle h
  refine ⟨honce, hfollows.session, hfollows.reconnects, ?_, ?_⟩
  · intro op g' hop hend hnew
    exact newConnection_run hop hend hnew
  · intro now s g' hend hnew
    exact newConnection_cycle hend hnew

/-- A gateway that has not dialled its device yet. -/
def undialledDevice : Gateway Device ChangeLog Change :=
  .new { immediateLimit := some 0 } {} 0 false

/-- After the probe is answered on a device that holds all of its replies back, the first of two
    clients is told of the new session, and the second is not. -/
theorem chronicle_reports_undialledDevice : ∃ g : Gateway Device ChangeLog Change,
    Chronicle undialledDevice [.began, .told ⟨true, true⟩, .told ⟨true, false⟩] g ∧
      g.session = 1 ∧
      ((⟨true, false⟩ : ConnectionStatus).newConnection = true ↔
        (⟨true, false⟩ : ConnectionStatus).connected = true ∧
          ∀ earlier, .told earlier ∈ presentSession [.began, .told ⟨true, true⟩] →
            earlier.connected = false) := by
  -- the probe after dialling gets its reply
  obtain ⟨c₁, hdial, hflush, hopen, hanswer, hlimit⟩ : ∃ c₁ : Channel Device,
      Channel.reconnect undialledDevice.channel = .ok () c₁ ∧
        c₁.config.flushBeforeWrite = true ∧ c₁.link.Open ∧
        c₁.link.answer (Device.heard (Utf8.encode "")) =
          (some (Device.answerNames {} (Text.words (Device.heard (Utf8.encode "")))), c₁.link) ∧
        c₁.link.immediateLimit = some 0 :=
    ⟨_, rfl, rfl, ⟨rfl, rfl⟩, rfl, rfl⟩
  obtain ⟨c₂, hwrite, -⟩ := Device.writeRead_device hflush hopen hanswer
    (Device.answerNames_ne_nil _ _) (by rw [hlimit]; exact Nat.zero_le _)
  have hevents : checkEvents undialledDevice = [.began] := by
    have hprobed : undialledDevice.probeAnswered = true := by
      rw [probeAnswered, hdial]
      simp only [hwrite]
    rw [checkEvents, hprobed]
    rfl
  obtain ⟨g₁, hcheck, -, hconnected, hnew⟩ := ensureConnected_of_answered
    (g := undialledDevice) (by decide) hdial hwrite
  -- the first client is told of the new session, the second one is not
  obtain ⟨g₂, hfirst, hconnected₂, hnew₂⟩ : ∃ g₂, status undialledDevice = .ok ⟨true, true⟩ g₂ ∧
      g₂.isConnected = true ∧ g₂.newConnection = false := by
    have htold : status undialledDevice =
        .ok ⟨true, g₁.newConnection⟩ { g₁ with newConnection := false } := by
      rw [status_eq, hcheck]
    rw [hnew] at htold
    exact ⟨_, htold, hconnected, rfl⟩
  obtain ⟨g₃, hsecond⟩ : ∃ g₃, status g₂ = .ok ⟨true, false⟩ g₃ := by
    have htold : status g₂ = .ok ⟨true, g₂.newConnection⟩ { g₂ with newConnection := false } := by
      rw [status_eq, ensureConnected_eq, if_pos hconnected₂]
    rw [hnew₂] at htold
    exact ⟨_, htold⟩
  have hrun : Chronicle undialledDevice [.began, .told ⟨true, true⟩, .told ⟨true, false⟩] g₃ := by
    have h₁ := Chronicle.start.operation (.status : Operation ChangeLog)
      ((ended_bind_pure _ _ _).trans (ended_of_ok hfirst))
    have h₂ := h₁.operation (.status : Operation ChangeLog)
      ((ended_bind_pure _ _ _).trans (ended_of_ok hsecond))
    simpa [Operation.events, hfirst, hsecond, hevents, checkEvents_of_connected hconnected₂]
      using h₂
  obtain ⟨honce, hsession, -⟩ := chronicle_reports hrun
  exact ⟨g₃, hrun, hsession, (honce [.began, .told ⟨true, true⟩] ⟨true, false⟩ ⟨[], rfl⟩).1⟩

end Run

end PmacPoll.Gateway
