import Interlude.Interlevel.Basic

/-!
# Fragments of screens

A screen repeats itself: patches are shown again and again, and many animations have the same
conditions. While a screen is made, its frames and its lists of conditions are therefore kept, and a
fragment that is kept already is used once more.
-/

namespace Interlude.Interlevel

/-- What a frame is known by among the fragments. -/
def Frame.key (f : Frame) : String × DurationKind × Binary64 :=
  (f.image, f.kind, f.duration)

/-- The fragments of a screen so far. -/
structure Fragments where
  frames : List ((String × DurationKind × Binary64) × Frame)
  conditions : List (List Condition × List Condition)

namespace Fragments

/-- There are no fragments yet. -/
def empty : Fragments := ⟨[], []⟩

/-- The value that is kept under a key, and what is kept then: the given value if none was there. -/
def keep {κ ν : Type} [BEq κ] (key : κ) (value : ν) (kept : List (κ × ν)) : ν × List (κ × ν) :=
  match kept.lookup key with
  | some shared => (shared, kept)
  | none => (value, (key, value) :: kept)

/-- The frame that is kept for a frame. -/
def frame (f : Frame) : StateM Fragments Frame :=
  modifyGet fun kept =>
    let (shared, frames) := keep f.key f kept.frames
    (shared, { kept with frames })

/-- The list that is kept for a list of conditions. There is none if there are no conditions. -/
def conditionList (conditions : List Condition) : StateM Fragments (Option (List Condition)) :=
  if conditions.isEmpty then pure none
  else modifyGet fun kept =>
    let (shared, lists) := keep conditions conditions kept.conditions
    (some shared, { kept with conditions := lists })

/-- An animation that is made of kept fragments. -/
def anim (a : Anim) : StateM Fragments Anim := do
  let frames ← a.frames.mapM frame
  let conditions ← conditionList (a.conditions.getD [])
  return { a with frames, conditions }

end Fragments

end Interlude.Interlevel
