import PmacPoll.Channel
import PmacPoll.Proofs.Actions

/-!
# The calls on a transport

`Recorded` is a transport that passes every call on to another one and keeps a record of it. So what
an operation hands to a transport is what it adds to the record.

`Makes` says it of an operation: on the recorded transport it does what it does on the plain one,
and the calls that it adds have, together with its outcome, a certain property. The rules below put
this together along the steps of the operation.
-/

namespace PmacPoll

open Running

variable {ε σ τ α β : Type}

/-! ### Calls -/

/-- A call on a transport, and what came of it. -/
inductive Call where
  | write (data : Bytes) (outcome : Except LinkError Nat)
  | read (size timeoutMs : Nat) (outcome : Except LinkError Bytes)
  | reconnect (outcome : Except LinkError Unit)

namespace Call

/-- The bytes that a write hands over. -/
def written? : Call → Option Bytes
  | write data _ => some data
  | _ => none

/-- The bytes that a read brings. -/
def received : Call → Bytes
  | read _ _ (.ok bytes) => bytes
  | _ => []

/-- Is it a read? -/
def isRead : Call → Bool
  | read .. => true
  | _ => false

/-- Is it a write that failed? -/
def isFailedWrite : Call → Bool
  | write _ (.error _) => true
  | _ => false

end Call

/-- What the calls hand over, in order. -/
def written (calls : List Call) : List Bytes :=
  calls.filterMap Call.written?

/-- What the calls bring, one after another. -/
def received (calls : List Call) : Bytes :=
  calls.flatMap Call.received

/-- What a write hands over comes first. -/
theorem written_write (data : Bytes) (outcome : Except LinkError Nat) (calls : List Call) :
    written (.write data outcome :: calls) = data :: written calls := rfl

/-- What was handed over is in the order of the calls. -/
theorem written_append (calls later : List Call) :
    written (calls ++ later) = written calls ++ written later :=
  List.filterMap_append

/-- Reads hand nothing over. -/
theorem written_of_reads {calls : List Call} (h : ∀ call ∈ calls, call.isRead = true) :
    written calls = [] := by
  refine List.filterMap_eq_nil_iff.mpr fun call hcall => ?_
  cases call with
  | read => rfl
  | write | reconnect => exact nomatch h _ hcall

/-- A transport with a record of the calls on it. -/
structure Recorded (σ : Type) where
  link : σ
  calls : List Call := []

namespace Recorded

/-- Passes a call on and puts it on record. -/
def record (call : Link σ α) (note : Except LinkError α → Call) : Link (Recorded σ) α := fun s =>
  match call s.link with
  | .ok a link => .ok a ⟨link, s.calls ++ [note (.ok a)]⟩
  | .error cause link => .error cause ⟨link, s.calls ++ [note (.error cause)]⟩

instance [Transport σ] : Transport (Recorded σ) where
  write data := record (Transport.write data) (.write data)
  read size timeoutMs :=
    record (Transport.read size timeoutMs) fun outcome =>
      .read size timeoutMs (outcome.map Subtype.val)
  reconnect := record Transport.reconnect .reconnect
  describe s := Transport.describe s.link
  now s := Transport.now s.link
  horizon s := Transport.horizon s.link

end Recorded

/-! ### Outcomes -/

/-- What a run comes to, without the state. -/
def outcome : EStateM.Result ε σ α → Except ε α
  | .ok a _ => .ok a
  | .error e _ => .error e

/-- A pure step at the end maps the outcome. -/
theorem outcome_bind_pure (x : EStateM ε σ α) (f : α → β) (s : σ) :
    outcome ((x >>= fun a => pure (f a)) s) = (outcome (x s)).map f := by
  rw [bind_run]
  cases x s <;> rfl

/-- A run that ends in another state. -/
def onState (f : σ → τ) : EStateM.Result ε σ α → EStateM.Result ε τ α
  | .ok a s => .ok a (f s)
  | .error e s => .error e (f s)

/-! ### The calls that an operation makes -/

/-- The operation `x` does with a record, which `attach` adds to a state, what `y` does without. The
    calls that it puts on record have with the outcome the property `P`. -/
def Makes (attach : σ → List Call → τ) (x : EStateM ε τ α) (y : EStateM ε σ α)
    (P : List Call → Except ε α → Prop) : Prop :=
  ∀ s before, ∃ calls,
    x (attach s before) = onState (attach · (before ++ calls)) (y s) ∧ P calls (outcome (y s))

namespace Makes

variable {attach : σ → List Call → τ} {x : EStateM ε τ α} {y : EStateM ε σ α}
  {P : List Call → Except ε α → Prop}

/-- Nothing is called to return a value. -/
theorem pure (a : α) (h : P [] (.ok a)) :
    Makes attach (Pure.pure a) (Pure.pure a) P := by
  intro s before
  refine ⟨[], ?_, h⟩
  rw [List.append_nil]
  rfl

/-- Nothing is called to raise an error. -/
theorem throw (e : ε) (h : P [] (.error e)) :
    Makes attach (MonadExcept.throw e) (MonadExcept.throw e) P := by
  intro s before
  refine ⟨[], ?_, h⟩
  rw [List.append_nil]
  rfl

/-- The property may be replaced by one that follows from it. -/
theorem mono {Q : List Call → Except ε α → Prop} (h : Makes attach x y P)
    (hPQ : ∀ calls r, P calls r → Q calls r) : Makes attach x y Q := by
  intro s before
  obtain ⟨calls, hrun, hP⟩ := h s before
  exact ⟨calls, hrun, hPQ _ _ hP⟩

/-- One operation after another. -/
theorem bind {f : α → EStateM ε τ β} {g : α → EStateM ε σ β}
    {Q : α → List Call → Except ε β → Prop} {R : List Call → Except ε β → Prop}
    (h : Makes attach x y P) (hf : ∀ a, Makes attach (f a) (g a) (Q a))
    (hok : ∀ calls a later r, P calls (.ok a) → Q a later r → R (calls ++ later) r)
    (herror : ∀ calls e, P calls (.error e) → R calls (.error e)) :
    Makes attach (x >>= f) (y >>= g) R := by
  intro s before
  -- the second operation runs only if the first one ended without an error
  obtain ⟨calls, hrun, hP⟩ := h s before
  simp only [bind_run, hrun]
  cases hy : y s with
  | ok a s' =>
    rw [hy] at hP
    obtain ⟨later, hlater, hQ⟩ := hf a s' (before ++ calls)
    refine ⟨calls ++ later, ?_, hok calls a later _ hP hQ⟩
    rw [← List.append_assoc]
    exact hlater
  | error e s' =>
    rw [hy] at hP
    exact ⟨calls, rfl, herror calls e hP⟩

/-- A value is made another one without a call. -/
theorem bind_pure {R : List Call → Except ε β → Prop} (f : α → β) (h : Makes attach x y P)
    (hok : ∀ calls a, P calls (.ok a) → R calls (.ok (f a)))
    (herror : ∀ calls e, P calls (.error e) → R calls (.error e)) :
    Makes attach (x >>= fun a => Pure.pure (f a)) (y >>= fun a => Pure.pure (f a)) R := by
  refine h.bind (Q := fun a later r => later = [] ∧ r = .ok (f a)) (fun a => .pure _ ⟨rfl, rfl⟩)
    ?_ herror
  rintro calls a _ r hcalls ⟨rfl, rfl⟩
  rw [List.append_nil]
  exact hok calls a hcalls

/-- A call that is passed on is put on record. -/
theorem record (call : Link σ α) (note : Except LinkError α → Call) :
    Makes Recorded.mk (Recorded.record call note) call fun calls r => calls = [note r] := by
  intro s before
  rw [Recorded.record]
  cases call s with
  | ok a s => exact ⟨_, rfl, rfl⟩
  | error cause s => exact ⟨_, rfl, rfl⟩

/-- A failure that is made a value is put on record all the same. -/
theorem attempt {x : Link (Recorded σ) α} {y : Link σ α}
    {P : List Call → Except LinkError α → Prop} (h : Makes Recorded.mk x y P) :
    Makes Recorded.mk (Link.attempt x) (Link.attempt y) fun calls r =>
      ∃ r', r = .ok r' ∧ P calls r' := by
  intro s before
  obtain ⟨calls, hrun, hP⟩ := h s before
  refine ⟨calls, ?_⟩
  rw [attempt_run, attempt_run, hrun]
  -- the attempt ends without an error, and what came of it has the property
  cases hy : y s with
  | ok a s' =>
    rw [hy] at hP
    exact ⟨rfl, .ok a, rfl, hP⟩
  | error e s' =>
    rw [hy] at hP
    exact ⟨rfl, .error e, rfl, hP⟩

end Makes

end PmacPoll
