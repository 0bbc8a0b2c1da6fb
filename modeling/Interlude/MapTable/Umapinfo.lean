import Interlude.MapTable.Basic

/-!
# Writing map definitions

The map table as a text with one block for each map, in the order of the numbers. Four properties
are written where they are present, three always, empty where they are absent.
-/

namespace Interlude.Umapinfo

/-- A line with a property. -/
def propertyLine (key value : String) : String :=
  s!"  {key} = \"{value}\"\n"

/-- A line with a property that is present. -/
def optionalLine (key : String) : Option String → String
  | none => ""
  | some value => propertyLine key value

/-- The block of a map. -/
def block (m : MapRecord) : String :=
  s!"MAP {m.token}\n\x7b\n" ++
    optionalLine "endpic" m.endPic ++
    optionalLine "next" m.next ++
    optionalLine "nextsecret" m.secretNext ++
    optionalLine "music" m.music ++
    propertyLine "levelpic" (m.levelPic.getD "") ++
    propertyLine "enteranim" (m.enterScript.getD "") ++
    propertyLine "exitanim" (m.exitScript.getD "") ++
    "\x7d\n"

/-- The blocks of the maps with an empty line between them. -/
def render (t : MapTable) : String :=
  "\n".intercalate ((t.maps.mergeSort fun a b => a.ordinal ≤ b.ordinal).map block)

/-- The line of thanks to the author of the screens. -/
def credits (author : String) : String :=
  s!"{author} - original GZDoom intermission screen mod, including all graphics and animations."

end Interlude.Umapinfo
