import PmacPoll.Text.Blank

/-!
# Tiers

Every polled variable belongs to one of four tiers, from the quickest to the slowest. The prefast
tier has the period of the fast one and comes before it in every round.
-/

namespace PmacPoll

/-- How often a variable is polled. -/
inductive Tier where
  | preFast
  | fast
  | medium
  | slow
  deriving DecidableEq, Repr

namespace Tier

/-- The tiers in the order in which a round visits them. -/
def all : List Tier := [preFast, fast, medium, slow]

/-- The place of a tier in `all`. -/
def index : Tier → Nat
  | preFast => 0
  | fast => 1
  | medium => 2
  | slow => 3

/-- Tiers are ordered by speed, the quickest first. -/
instance : LT Tier := ⟨fun a b => a.index < b.index⟩

instance (a b : Tier) : Decidable (a < b) := inferInstanceAs (Decidable (a.index < b.index))

/-- The name of a tier. -/
def name : Tier → String
  | preFast => "prefast"
  | fast => "fast"
  | medium => "medium"
  | slow => "slow"

/-- A name that is no tier's. -/
structure UnknownName where
  name : String
  deriving DecidableEq, Repr

/-- The text of the error. -/
def UnknownName.message (e : UnknownName) : String :=
  "unknown tier: " ++ e.name

/-- The tier of a name; blanks around it and the case of its ASCII letters do not count. -/
def parse (text : String) : Except UnknownName Tier :=
  let name := String.ofList ((Text.trim text).toList.map Char.toLower)
  match name with
  | "prefast" | "pre_fast" | "pre-fast" => .ok preFast
  | "fast" => .ok fast
  | "medium" => .ok medium
  | "slow" => .ok slow
  | _ => .error ⟨name⟩

end Tier

/-- One value for each tier. -/
structure PerTier (α : Type) where
  preFast : α
  fast : α
  medium : α
  slow : α
  deriving Repr

namespace PerTier

variable {α : Type}

/-- The same value for each tier. -/
def replicate (a : α) : PerTier α := ⟨a, a, a, a⟩

/-- The value of a tier. -/
def get (p : PerTier α) : Tier → α
  | .preFast => p.preFast
  | .fast => p.fast
  | .medium => p.medium
  | .slow => p.slow

/-- Gives a tier a new value. -/
def set (p : PerTier α) (tier : Tier) (a : α) : PerTier α :=
  match tier with
  | .preFast => { p with preFast := a }
  | .fast => { p with fast := a }
  | .medium => { p with medium := a }
  | .slow => { p with slow := a }

/-- Every tier has the same at first. -/
@[simp] theorem get_replicate (a : α) (tier : Tier) : (replicate a).get tier = a := by
  cases tier <;> rfl

/-- What was set for a tier is there. -/
@[simp] theorem get_set_self (p : PerTier α) (tier : Tier) (a : α) :
    (p.set tier a).get tier = a := by
  cases tier <;> rfl

/-- The other tiers have what they had. -/
theorem get_set_ne (p : PerTier α) {tier other : Tier} (a : α) (h : other ≠ tier) :
    (p.set tier a).get other = p.get other := by
  cases tier <;> cases other <;> simp_all [get, set]

end PerTier

end PmacPoll
