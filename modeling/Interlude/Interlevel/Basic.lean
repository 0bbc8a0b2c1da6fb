import Interlude.Decimal.Binary64

/-!
# Interlevel screens

The screen between two maps as the engine is given it: layers of animations at places of the
screen, each shown while all of its conditions hold.
-/

namespace Interlude.Interlevel

/-- What a condition asks for. -/
inductive ConditionKind where
  /-- The number of the current map is the parameter. -/
  | current
  /-- The map with the number was visited. -/
  | visited
  /-- The screen is the one after a map. -/
  | leaving
  /-- The screen is the one before a map. -/
  | entering
  deriving DecidableEq, Repr

namespace ConditionKind

/-- The number of a kind in the format. -/
def code : ConditionKind → Nat
  | .current => 2
  | .visited => 3
  | .leaving => 6
  | .entering => 7

/-- The kind with a number. -/
def ofCode? : Nat → Option ConditionKind
  | 2 => some .current
  | 3 => some .visited
  | 6 => some .leaving
  | 7 => some .entering
  | _ => none

@[simp] theorem ofCode?_code (k : ConditionKind) : ofCode? k.code = some k := by
  cases k <;> rfl

end ConditionKind

/-- A condition with its parameter. -/
structure Condition where
  kind : ConditionKind
  param : Nat
  deriving DecidableEq, Repr

namespace Condition

/-- The current map has a number. -/
def current (map : Nat) : Condition := ⟨.current, map⟩

/-- The map with a number was visited. -/
def visited (map : Nat) : Condition := ⟨.visited, map⟩

/-- The screen is the one after a map. -/
def leaving : Condition := ⟨.leaving, 0⟩

/-- The screen is the one before a map. -/
def entering : Condition := ⟨.entering, 0⟩

end Condition

/-- How long a frame is shown. -/
inductive DurationKind where
  /-- As long as the screen. -/
  | infinite
  /-- For its duration. -/
  | fixed
  deriving DecidableEq, Repr

namespace DurationKind

/-- The number of a kind in the format. -/
def code : DurationKind → Nat
  | .infinite => 1
  | .fixed => 2

/-- The kind with a number. -/
def ofCode? : Nat → Option DurationKind
  | 1 => some .infinite
  | 2 => some .fixed
  | _ => none

@[simp] theorem ofCode?_code (k : DurationKind) : ofCode? k.code = some k := by
  cases k <;> rfl

end DurationKind

/-- An image with the time it is shown. -/
structure Frame where
  image : String
  kind : DurationKind
  /-- In seconds; zero for an infinite frame. -/
  duration : Binary64
  maxDuration : Nat
  deriving DecidableEq, Repr

namespace Frame

/-- An image that stays. -/
def infinite (image : String) : Frame := ⟨image, .infinite, .zero, 0⟩

/-- An image that is shown for some seconds. -/
def fixed (image : String) (seconds : Binary64) : Frame := ⟨image, .fixed, seconds, 0⟩

/-- The engine counts 35 tics to a second. -/
def ticsPerSecond : Nat := 35

/-- A number of tics in seconds, to the nearest hundredth; no number of tics lies half way. -/
def seconds (tics : Nat) : Binary64 :=
  .ofDecimal false ⟨(2 * 100 * tics + ticsPerSecond) / (2 * ticsPerSecond), -2⟩

end Frame

/-- Frames at a place of the screen. Without conditions they are always shown. -/
structure Anim where
  x : Int
  y : Int
  frames : List Frame
  conditions : Option (List Condition)
  deriving DecidableEq, Repr

/-- Animations with conditions for all of them. -/
structure Layer where
  anims : List Anim
  conditions : Option (List Condition)
  deriving DecidableEq, Repr

/-- A screen. A screen without layers differs from one with an empty list of them. -/
structure Data where
  music : Option String
  background : Option String
  layers : Option (List Layer)
  deriving DecidableEq, Repr

end Interlude.Interlevel
