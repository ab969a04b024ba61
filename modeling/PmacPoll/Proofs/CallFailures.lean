import PmacPoll.Proofs.FrameOrder

/-!
# Failures of the transport

A call on the transport that fails, and not by silence alone, is the last one that an operation
makes, and the operation fails with the cause of that call; it never fails so for another reason,
`FaultsFinal`. Silence is dealt with on the way: a read that stays silent is followed by a probe,
and the answer to a probe or to a flush may stay out.

`Ends` says it of the operations on the link, and what they take for silence besides, `Blames`. Each
has one lemma, from the lemmas of the operations that it is made of.
-/

namespace PmacPoll

open Running

variable {ε σ α β : Type}

/-! ### Calls that fail -/

/-- The error that an outcome is, if it is one. -/
def cause? : Except ε α → Option ε
  | .ok _ => none
  | .error e => some e

/-- A result has a cause if it failed with that one. -/
private theorem cause?_eq_some {r : Except ε α} {e : ε} : cause? r = some e ↔ r = .error e := by
  cases r <;> simp [cause?]

namespace Call

/-- The error that a call ends in. -/
def error? : Call → Option LinkError
  | write _ outcome => cause? outcome
  | read _ _ outcome => cause? outcome
  | reconnect outcome => cause? outcome

/-- The error that a call ends in, if it is no silence. -/
def fault? (call : Call) : Option LinkError :=
  call.error?.filter (!·.isTimeout)

/-- A fault is a failed call whose cause is not silence. -/
private theorem fault?_eq_some {call : Call} {cause : LinkError} :
    call.fault? = some cause ↔ call.error? = some cause ∧ cause.isTimeout = false := by
  rw [fault?, Option.filter_eq_some_iff, Bool.not_eq_true']

end Call

/-- The calls succeed, or fail by silence. -/
def Harmless (calls : List Call) : Prop :=
  ∀ call ∈ calls, call.fault? = none

/-- A call that fails otherwise than by silence is the last one, and the operation fails with its
    cause, as `fails` tells. It fails for no other cause but silence. -/
structure FaultsFinal (calls : List Call) (fails : LinkError → Prop) : Prop where
  final : ∀ before call after cause, calls = before ++ call :: after →
    call.error? = some cause → cause.isTimeout = false → after = [] ∧ fails cause
  traced : ∀ cause, fails cause → cause.isTimeout = false →
    ∃ before call, calls = before ++ [call] ∧ call.error? = some cause

/-- Calls are harmless if both parts of them are. -/
private theorem harmless_append {calls later : List Call} :
    Harmless (calls ++ later) ↔ Harmless calls ∧ Harmless later :=
  List.forall_mem_append

namespace FaultsFinal

variable {calls later : List Call} {fails fails' : LinkError → Prop}

/-- Only what an operation fails with matters, however it is put. -/
theorem congr (h : FaultsFinal calls fails) (hfails : ∀ cause, fails cause ↔ fails' cause) :
    FaultsFinal calls fails' where
  final before call after cause hcalls hcall hfault :=
    have ⟨hafter, hcause⟩ := h.final before call after cause hcalls hcall hfault
    ⟨hafter, (hfails cause).mp hcause⟩
  traced cause hcause hfault := h.traced cause ((hfails cause).mpr hcause) hfault

/-- Without a fault in the calls it is enough that the operation fails by silence only. -/
private theorem of_harmless (hcalls : Harmless calls)
    (hfails : ∀ cause, fails cause → cause.isTimeout = true) : FaultsFinal calls fails where
  final before call after cause hbefore hcall hfault := by
    have hnone := hcalls call (by rw [hbefore]; simp)
    rw [Call.fault?_eq_some.mpr ⟨hcall, hfault⟩] at hnone
    exact nomatch hnone
  traced cause hcause hfault := nomatch (hfails cause hcause).symm.trans hfault

/-- Operations that do not fail, or only by silence, make harmless calls. -/
private theorem harmless (h : FaultsFinal calls fails)
    (hfails : ∀ cause, fails cause → cause.isTimeout = true) : Harmless calls := by
  intro call hcall
  obtain ⟨before, after, hcalls⟩ := List.append_of_mem hcall
  cases hfault : call.fault? with
  | none => rfl
  | some cause =>
    obtain ⟨herror, hnot⟩ := Call.fault?_eq_some.mp hfault
    have hcause := (h.final before call after cause hcalls herror hnot).2
    exact nomatch (hfails cause hcause).symm.trans hnot

/-- Harmless calls may go before. -/
theorem append (hcalls : Harmless calls) (h : FaultsFinal later fails) :
    FaultsFinal (calls ++ later) fails where
  final before call after cause hboth hcall hfault := by
    -- the call that fails is a later one, for none of the first ones does
    rcases List.append_eq_append_iff.mp hboth with ⟨more, -, hlater⟩ | ⟨more, hbefore, hmore⟩
    · exact h.final more call after cause hlater hcall hfault
    · cases more with
      | nil => exact h.final [] call after cause hmore.symm hcall hfault
      | cons other more =>
        obtain ⟨rfl, -⟩ := List.cons.inj hmore
        have hnone := hcalls call (by rw [hbefore]; simp)
        rw [Call.fault?_eq_some.mpr ⟨hcall, hfault⟩] at hnone
        exact nomatch hnone
  traced cause hcause hfault := by
    obtain ⟨before, call, rfl, hcall⟩ := h.traced cause hcause hfault
    exact ⟨calls ++ before, call, (List.append_assoc ..).symm, hcall⟩

/-- An operation that fails as its only call does. -/
theorem single {call : Call} (hcall : ∀ cause, call.error? = some cause ↔ fails cause) :
    FaultsFinal [call] fails where
  final before other after cause hone hother _ := by
    rcases List.cons_eq_append_iff.mp hone with ⟨rfl, hmore⟩ | ⟨more, -, hnone⟩
    · obtain ⟨rfl, rfl⟩ := List.cons.inj hmore
      exact ⟨rfl, (hcall cause).mp hother⟩
    · exact absurd hnone.symm (by simp)
  traced cause hcause _ := ⟨[], call, rfl, (hcall cause).mpr hcause⟩

end FaultsFinal

/-! ### What an operation on the link blames -/

/-- Nothing was read. -/
def Silent : Except LinkError Bytes → Prop
  | .ok bytes => bytes = []
  | .error cause => cause.isTimeout = true

/-- What an operation that reads at most `size` bytes fails for: the error of its last call, a read
    without bytes after a fetch, or a read that stayed silent, after which the controller was probed
    and had nothing either. -/
inductive Blames (size timeoutMs : Nat) : List Call → LinkError → Prop where
  | call (before : List Call) {call : Call} {cause : LinkError} :
      call.error? = some cause → Blames size timeoutMs (before ++ [call]) cause
  | empty (before : List Call) :
      Blames size timeoutMs (before ++ [.read size timeoutMs (.ok [])])
        (.timeout "empty retry read")
  | silent (before : List Call) {after : List Call} {outcome : Except LinkError Bytes} :
      Silent outcome →
      Blames size timeoutMs (before ++ .read size timeoutMs outcome :: after)
        (.timeout ("no reply within " ++ toString timeoutMs ++ "ms and nothing pending"))

/-- Whatever was called before, the same call is to blame. -/
theorem Blames.append {size timeoutMs : Nat} {later : List Call} {cause : LinkError}
    (calls : List Call) (h : Blames size timeoutMs later cause) :
    Blames size timeoutMs (calls ++ later) cause := by
  cases h with
  | call _ hcall => rw [← List.append_assoc]; exact .call _ hcall
  | empty => rw [← List.append_assoc]; exact .empty _
  | silent _ hsilent => rw [← List.append_assoc]; exact .silent _ hsilent

/-- How an operation on the link ends. -/
structure Ends (size timeoutMs : Nat) (calls : List Call) (r : Except LinkError α) : Prop where
  faults : FaultsFinal calls (r = .error ·)
  blames : ∀ cause, r = .error cause → Blames size timeoutMs calls cause

namespace Ends

variable {size timeoutMs : Nat} {calls later : List Call} {r : Except LinkError α}

/-- Harmless calls may end in success. -/
private theorem of_ok {a : α} (h : Harmless calls) :
    Ends size timeoutMs calls (.ok a : Except LinkError α) :=
  ⟨.of_harmless h nofun, nofun⟩

/-- An operation that succeeds made harmless calls. -/
private theorem harmless {a : α} (h : Ends size timeoutMs calls (.ok a : Except LinkError α)) :
    Harmless calls :=
  h.faults.harmless nofun

/-- Harmless calls may go before. -/
theorem append (hcalls : Harmless calls) (h : Ends size timeoutMs later r) :
    Ends size timeoutMs (calls ++ later) r :=
  ⟨h.faults.append hcalls, fun cause hcause => (h.blames cause hcause).append calls⟩

/-- An operation that fails as its only call does. -/
theorem single {call : Call} (hcall : call.error? = cause? r) : Ends size timeoutMs [call] r :=
  have hcause : ∀ cause, call.error? = some cause ↔ r = .error cause := fun _ =>
    hcall ▸ cause?_eq_some
  ⟨.single hcause, fun cause h => .call [] ((hcause cause).mpr h)⟩

/-- A failure is the same failure of an operation that gives something else. -/
theorem error {e : LinkError} (h : Ends size timeoutMs calls (.error e : Except LinkError α)) :
    Ends size timeoutMs calls (.error e : Except LinkError β) :=
  ⟨h.faults.congr fun cause => by simp, fun cause hcause => h.blames cause (by simpa using hcause)⟩

end Ends

/-! ### The operations on the link -/

namespace Makes

variable {size timeoutMs : Nat} {x : Link (Recorded σ) α} {y : Link σ α}

/-- One operation on the link after another. -/
theorem bind_ends {f : α → Link (Recorded σ) β} {g : α → Link σ β}
    (h : Makes Recorded.mk x y (Ends size timeoutMs))
    (hf : ∀ a, Makes Recorded.mk (f a) (g a) (Ends size timeoutMs)) :
    Makes Recorded.mk (x >>= f) (y >>= g) (Ends size timeoutMs) :=
  h.bind hf (fun _ _ _ _ hcalls hlater => hlater.append hcalls.harmless)
    fun _ _ hcalls => hcalls.error

/-- A value that is given without a call. -/
theorem pure_ends (a : α) :
    Makes Recorded.mk (Pure.pure a : Link (Recorded σ) α) (Pure.pure a) (Ends size timeoutMs) :=
  .pure a (.of_ok (List.forall_mem_nil _))

end Makes

namespace Link

variable [Transport σ] {size timeoutMs : Nat}

/-- A read that brings bytes does no harm. -/
private theorem harmless_read {n ms : Nat} (bytes : Bytes) : Harmless [.read n ms (.ok bytes)] :=
  List.forall_mem_singleton.mpr rfl

/-- A silent read is harmless. -/
private theorem harmless_of_silent {n ms : Nat} {outcome : Except LinkError Bytes}
    (h : Silent outcome) : Harmless [.read n ms outcome] := by
  cases outcome with
  | ok bytes => exact harmless_read bytes
  | error cause =>
    have hcause : cause.isTimeout = true := h
    refine List.forall_mem_singleton.mpr ?_
    rw [Call.fault?, Call.error?, cause?, Option.filter_some, hcause]
    rfl

/-- Sending a frame is one call, and it fails if that call does. -/
theorem send_ends (frame : Frame) :
    Makes Recorded.mk (send (σ := Recorded σ) frame) (send (σ := σ) frame)
      (Ends size timeoutMs) := by
  have hwrite : Makes Recorded.mk (Transport.write frame.encode : Link (Recorded σ) Nat)
      (Transport.write frame.encode : Link σ Nat) (Ends size timeoutMs) :=
    (Makes.record _ _).mono fun _ _ hcalls => hcalls ▸ .single rfl
  exact hwrite.bind_ends fun _ => .pure_ends ()

/-- The reads of an answer: silence ends them early, and is no failure. -/
theorem gather_ends (ms wanted : Nat) :
    Makes Recorded.mk (gather (σ := Recorded σ) ms wanted) (gather (σ := σ) ms wanted)
      (Ends size timeoutMs) := by
  -- on the number of bytes that are wanted, of which every read but the last brings some
  induction wanted using Nat.strongRecOn with
  | ind wanted ih =>
    cases wanted with
    | zero =>
      rw [gather, gather]
      exact .pure_ends []
    | succ wanted =>
      rw [gather, gather]
      refine (read_makes (wanted + 1) ms).attempt.bind (Q := fun first later r =>
        Ends size timeoutMs (.read (wanted + 1) ms (first.map Subtype.val) :: later) r) ?_ ?_ ?_
      · rintro (cause | ⟨_ | ⟨byte, more⟩, hsize⟩)
        · dsimp only
          split
          · next hcause =>
            have hsilent : Silent (.error cause) := hcause
            exact .pure [] (.of_ok (harmless_of_silent hsilent))
          · exact .throw cause (.single rfl)
        · -- the answer is short, but the bytes that are there are given
          exact .pure [] (.of_ok (harmless_read []))
        · refine ((ih _ (by omega)).bind_ends fun _ => .pure_ends _).mono fun later r hlater => ?_
          exact hlater.append (harmless_read _)
      · rintro _ first later r ⟨r', hr', rfl⟩ hlater
        obtain rfl := Except.ok.inj hr'
        -- the calls before are harmless, as the read was successful or silent
        exact hlater
      · rintro calls e ⟨r', hr', -⟩
        cases hr'

/-- A probe is sent and its answer is gathered. -/
theorem isReady_ends (ms : Nat) :
    Makes Recorded.mk (isReady (σ := Recorded σ) ms) (isReady (σ := σ) ms)
      (Ends size timeoutMs) :=
  (send_ends Frame.readReady).bind_ends fun _ =>
    (gather_ends ms 2).bind_ends fun _ => .pure_ends _

/-- The read after a probe that says that data are waiting. -/
theorem fetched_ends (size timeoutMs : Nat) :
    Makes Recorded.mk
      (send (σ := Recorded σ) (Frame.getBuffer size) >>= fun _ =>
        Transport.read size timeoutMs >>= fun bytes =>
          if h : bytes.1 = [] then throw (.timeout "empty retry read")
          else pure (⟨bytes.1, h, bytes.2⟩ : Chunk size))
      (send (σ := σ) (Frame.getBuffer size) >>= fun _ =>
        Transport.read size timeoutMs >>= fun bytes =>
          if h : bytes.1 = [] then throw (.timeout "empty retry read")
          else pure (⟨bytes.1, h, bytes.2⟩ : Chunk size))
      (Ends size timeoutMs) := by
  refine (send_ends _).bind_ends fun _ => (read_makes size timeoutMs).bind
    (Q := fun bytes later r =>
      Ends size timeoutMs (.read size timeoutMs (.ok bytes.1) :: later) r) (fun bytes => ?_) ?_ ?_
  · -- an empty answer is a timeout, and no call after the read
    split
    · next hempty =>
      refine .throw _ ⟨.of_harmless (harmless_read _) (by rintro _ ⟨⟩; rfl), ?_⟩
      rintro _ ⟨⟩
      rw [hempty]
      exact .empty []
    · exact .pure _ (.of_ok (harmless_read _))
  · rintro _ bytes later r rfl hlater
    exact hlater
  · rintro _ e rfl
    exact .single rfl

/-- What is done after a read that stayed silent. -/
theorem fetch_ends {outcome : Except LinkError Bytes} (hsilent : Silent outcome)
    (probeMs size timeoutMs : Nat) :
    Makes Recorded.mk (fetch (σ := Recorded σ) probeMs size timeoutMs)
      (fetch (σ := σ) probeMs size timeoutMs) fun later r =>
      Ends size timeoutMs (.read size timeoutMs outcome :: later) r := by
  have hread : Harmless [.read size timeoutMs outcome] := harmless_of_silent hsilent
  have hprobe : Makes Recorded.mk (isReady (σ := Recorded σ) probeMs) (isReady (σ := σ) probeMs)
      (Ends size timeoutMs) := isReady_ends probeMs
  refine hprobe.bind (Q := fun _ later r => Ends size timeoutMs later r ∨
      later = [] ∧ r = .error (.timeout ("no reply within " ++ toString timeoutMs ++
        "ms and nothing pending"))) (fun ready => ?_) ?_ ?_
  · cases ready with
    | true => exact (fetched_ends size timeoutMs).mono fun _ _ hlater => .inl hlater
    | false => exact .throw _ (.inr ⟨rfl, rfl⟩)
  · rintro calls ready later r hcalls (hlater | ⟨rfl, rfl⟩)
    -- either the fetch decides, or there was nothing to fetch and the silent read is to blame
    · exact (hlater.append hcalls.harmless).append hread
    · rw [List.append_nil]
      refine ⟨.of_harmless (harmless_append.mpr ⟨hread, hcalls.harmless⟩) (by rintro _ ⟨⟩; rfl), ?_⟩
      rintro _ ⟨⟩
      exact .silent [] hsilent
  · exact fun calls e hcalls => hcalls.error.append hread

/-- **A read of the channel.** -/
theorem receive_ends (probeMs size timeoutMs : Nat) :
    Makes Recorded.mk (receive (σ := Recorded σ) probeMs size timeoutMs)
      (receive (σ := σ) probeMs size timeoutMs) (Ends size timeoutMs) := by
  refine (read_makes size timeoutMs).attempt.bind (Q := fun first later r =>
    Ends size timeoutMs (.read size timeoutMs (first.map Subtype.val) :: later) r)
    (fun first => ?_) ?_ ?_
  · -- a first read that is silent and one that is empty are followed by a fetch
    rcases first with cause | bytes
    · dsimp only
      split
      · next hcause =>
        have hsilent : Silent (.error cause) := hcause
        exact fetch_ends hsilent probeMs size timeoutMs
      · exact .throw cause (.single rfl)
    · dsimp only
      split
      · next hempty =>
        have hsilent : Silent (.ok bytes.1) := hempty
        exact fetch_ends hsilent probeMs size timeoutMs
      · exact .pure _ (.of_ok (harmless_read _))
  · -- the calls of what follows come after the first read
    rintro _ first later r ⟨r', hr', rfl⟩ hlater
    obtain rfl := Except.ok.inj hr'
    exact hlater
  · rintro calls e ⟨r', hr', -⟩
    exact nomatch hr'

/-- The same after the first bytes of a reply. -/
theorem receiveMore_ends (probeMs size timeoutMs : Nat) :
    Makes Recorded.mk (receiveMore (σ := Recorded σ) probeMs size timeoutMs)
      (receiveMore (σ := σ) probeMs size timeoutMs) (Ends size timeoutMs) := by
  refine (isReady_ends probeMs).bind_ends fun ready => ?_
  cases ready with
  | true => exact (send_ends _).bind_ends fun _ => receive_ends probeMs size timeoutMs
  | false => exact receive_ends probeMs size timeoutMs

end Link

/-! ### The operations on a channel -/

namespace Channel

/-- A call that fails otherwise than by silence is the last one that an operation on a channel
    makes, and the operation fails with its cause. It fails for no other cause but silence. -/
def FailsAtFault (calls : List Call) (r : Except (Stop LinkError) α) : Prop :=
  FaultsFinal calls fun cause => r = .error (.failed cause)

namespace FailsAtFault

variable {calls later : List Call} {r : Except (Stop LinkError) α}

/-- Harmless calls may end in success. -/
private theorem of_ok {a : α} (h : Harmless calls) :
    FailsAtFault calls (.ok a : Except (Stop LinkError) α) :=
  .of_harmless h nofun

/-- An operation that succeeds made harmless calls. -/
private theorem harmless {a : α} (h : FailsAtFault calls (.ok a : Except (Stop LinkError) α)) :
    Harmless calls :=
  FaultsFinal.harmless h nofun

/-- Harmless calls may go before. -/
theorem append (hcalls : Harmless calls) (h : FailsAtFault later r) :
    FailsAtFault (calls ++ later) r :=
  FaultsFinal.append hcalls h

/-- An operation that fails as its only call does. -/
theorem single {call : Call} {cause : LinkError} (h : call.error? = some cause) :
    FailsAtFault [call] (.error (.failed cause) : Except (Stop LinkError) α) :=
  FaultsFinal.single fun other => by rw [h]; simp

/-- What an operation fails with does not depend on what it would have given. -/
theorem error {stop : Stop LinkError}
    (h : FailsAtFault calls (.error stop : Except (Stop LinkError) α)) :
    FailsAtFault calls (.error stop : Except (Stop LinkError) β) :=
  FaultsFinal.congr h fun cause => by simp

/-- A read on the link that fails the operation. -/
theorem of_ends {size timeoutMs : Nat} {cause : LinkError}
    (h : Ends size timeoutMs calls (.error cause : Except LinkError β)) :
    FailsAtFault calls (.error (.failed cause) : Except (Stop LinkError) α) :=
  h.faults.congr fun other => by simp

end FailsAtFault

variable [Transport σ]

/-- A flush fails if its frame does, or the read after it for another reason than silence. -/
theorem flush_fails :
    Makes recorded (flush (σ := Recorded σ)) (flush (σ := σ)) FailsAtFault := by
  have hsent : ∀ count, Harmless [.write Frame.flush.encode (.ok count)] := fun _ =>
    List.forall_mem_singleton.mpr rfl
  refine makes_flush (fun _ => .single rfl)
    (fun count ms bytes => .append (hsent count) (.of_ok (Link.harmless_read bytes)))
    (fun count ms cause hcause => ?_)
    fun count ms cause _ => .append (hsent count) (.single rfl)
  have hsilent : Silent (.error cause) := hcause
  exact .append (hsent count) (.of_ok (Link.harmless_of_silent hsilent))

/-- The start of an exchange is a flush and a command. -/
private theorem beginExchange_fails (command : Bytes) :
    Makes recorded (beginExchange (σ := Recorded σ) command) (beginExchange (σ := σ) command)
      FailsAtFault :=
  makes_beginExchange (R := fun _ => FailsAtFault) flush_fails
    (makes_sendCommand (P := FailsAtFault) (fun _ => .single rfl)
      fun _ => .of_ok (List.forall_mem_singleton.mpr rfl))
    (fun _ _ h => h) (fun _ _ _ hcalls hlater => hlater.append hcalls.harmless) fun _ _ h => h

/-- The next bytes of a reply, the first of them or later ones. -/
theorem nextRead_ends (config : Config) (first : Bool) :
    Makes Recorded.mk (nextRead (σ := Recorded σ) config first) (nextRead (σ := σ) config first)
      (Ends Frame.maxRead config.timeoutMs) := by
  cases first with
  | true => exact Link.receive_ends config.timeoutMs Frame.maxRead config.timeoutMs
  | false => exact Link.receiveMore_ends config.timeoutMs Frame.maxRead config.timeoutMs

/-- Reading a reply passes the failures of its reads on. -/
theorem readReply_fails :
    Makes recorded (readReply (σ := Recorded σ)) (readReply (σ := σ)) FailsAtFault := by
  refine makes_readReply (R := FailsAtFault) (fun config => makes_collect (nextRead_ends config)
    (.of_ok (List.forall_mem_nil _)) (.of_harmless (List.forall_mem_nil _) nofun)
    (fun calls cause hcalls hcause => ?_) (fun _ _ hcalls => .of_ends hcalls)
    fun _ _ _ _ hcalls hlater => hlater.append hcalls.harmless) fun calls r reply h => ?_
  · -- a reply that silence ends is no failure, whichever call stayed silent
    exact .of_ok (hcalls.faults.harmless fun other hother => Except.error.inj hother ▸ hcause)
  · cases r with
    | ok u => exact .of_ok h.harmless
    | error stop => exact h.error

/-- An exchange is its start and then its reply. -/
theorem writeRead_fails (command : Bytes) :
    Makes recorded (writeRead (σ := Recorded σ) command) (writeRead (σ := σ) command)
      FailsAtFault := by
  rw [writeRead_eq_begin, writeRead_eq_begin]
  exact (beginExchange_fails command).bind
    (fun _ => readReply_fails.bind_pure (R := FailsAtFault) _ (fun _ _ h => .of_ok h.harmless)
      fun _ _ h => h.error)
    (fun _ _ _ _ hcalls hlater => hlater.append hcalls.harmless) fun _ _ h => h.error

end Channel

end PmacPoll
