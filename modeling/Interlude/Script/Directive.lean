import Interlude.Decimal.Basic
import Interlude.Script.Basic
import Interlude.Text.Word

/-!
# The lines of a script

A line is a list of words, between which stand spaces and tabs. The first word, or the one after a
guard, says what the line is; the words that follow have fixed forms. A line that has none of the
forms is no directive.
-/

namespace Interlude.Script

/-- What a line of a script asks for. -/
inductive Directive where
  | background (name : String)
  | splat (name : String)
  | pointer (left right : String)
  /-- Followed by a block of spots. -/
  | spots
  | picture (guard : Guard) (x y : Nat) (patch : String)
  /-- Followed by a block of patches. -/
  | animation (guard : Guard) (x y tics : Nat) (once : Bool)
  deriving DecidableEq, Repr

/-- Whether a block follows the line. -/
def Directive.hasBlock : Directive → Bool
  | .spots => true
  | .animation .. => true
  | _ => false

/-- The words of a line. -/
def words (line : List Char) : List String :=
  ((line.splitOnP fun c => c == ' ' || c == '\t').filter (· ≠ [])).map String.ofList

/-- A name has one to eight letters, digits and underscores. -/
def name? (word : String) : Option String :=
  let cs := word.toList
  if cs ≠ [] ∧ cs.length ≤ 8 ∧ cs.all Text.isWordChar then some word else none

/-- A number of one digit to `most` digits. -/
def number? (most : Nat) (word : String) : Option Nat :=
  let cs := word.toList
  if cs ≠ [] ∧ cs.length ≤ most ∧ cs.all Char.isDigit then some (Decimal.ofDigits cs) else none

/-- A coordinate has up to three digits. -/
def coordinate? : String → Option Nat := number? 3

/-- A number of tics has up to two digits. -/
def tics? : String → Option Nat := number? 2

/-- A guard at the start of the words, if there is one, and the words after it. Where the player
comes from is not known on the screen, so of two maps only the second one counts. -/
def guard? : List String → Option (Guard × List String)
  | "IFENTERING" :: map :: rest => do return (.entering (← name? map), rest)
  | "IFLEAVING" :: map :: rest => do return (.leaving (← name? map), rest)
  | "IFVISITED" :: map :: rest => do return (.visited (← name? map), rest)
  | "IFTRAVELLING" :: origin :: map :: rest => do
    let _ ← name? origin
    return (.entering (← name? map), rest)
  | rest => some (.always, rest)

/-- A picture or an animation. -/
def drawing? (guard : Guard) : List String → Option Directive
  | ["PIC", x, y, patch] => do
    return .picture guard (← coordinate? x) (← coordinate? y) (← name? patch)
  | ["ANIMATION", x, y, tics] => do
    return .animation guard (← coordinate? x) (← coordinate? y) (← tics? tics) false
  | ["ANIMATION", x, y, tics, "ONCE"] => do
    return .animation guard (← coordinate? x) (← coordinate? y) (← tics? tics) true
  | _ => none

/-- The directive that the words of a line make up. -/
def Directive.ofWords? : List String → Option Directive
  | ["BACKGROUND", name] => .background <$> name? name
  | ["SPLAT", name] => .splat <$> name? name
  | ["POINTER", left, right] => do return .pointer (← name? left) (← name? right)
  | ["SPOTS"] => some .spots
  | words => do
    let (guard, rest) ← guard? words
    drawing? guard rest

/-- The directive that a line is. -/
def Directive.ofLine? (line : List Char) : Option Directive :=
  ofWords? (words line)

/-! ### The lines of a block -/

/-- The digits of a number without leading zeros. -/
def positive? : List Char → Option Nat
  | [] => none
  | d :: rest =>
    if d.isDigit && d != '0' && rest.all Char.isDigit then some (Decimal.ofDigits (d :: rest)) else none

/-- The whole numbers that have a place in 32 bits. -/
def inRange (n : Int) : Option Int :=
  if Int32.minValue.toInt ≤ n ∧ n ≤ Int32.maxValue.toInt then some n else none

/-- The coordinate of a spot: zero, or digits without leading zeros, which may have a sign, as far
as 32 bits hold the number. -/
def spotCoordinate? (word : String) : Option Int :=
  match word.toList with
  | ['0'] => some 0
  | '-' :: digits => (positive? digits).bind fun n => inRange (-n)
  | '+' :: digits => (positive? digits).bind fun n => inRange n
  | digits => (positive? digits).bind fun n => inRange n

/-- A map and its place. -/
def spot? (line : List Char) : Option Spot :=
  match words line with
  | [map, x, y] => do return ⟨← name? map, ← spotCoordinate? x, ← spotCoordinate? y⟩
  | _ => none

/-- A patch, or the word for no patch. -/
def patch? (line : List Char) : Option String := do
  let name ← name? (String.ofList line)
  return if name = "BLANK" then blankPatch else name

end Interlude.Script
