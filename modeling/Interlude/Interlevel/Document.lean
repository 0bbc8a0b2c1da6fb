import Interlude.Interlevel.Basic
import Interlude.Json.Layout

/-!
# Interlevel documents

A screen is stored as a JSON document with some words about its making. Every frame and every list
of conditions stands on one line.
-/

namespace Interlude.Interlevel

/-- The words about the making of a document. -/
structure Metadata where
  author : String
  application : String
  timestamp : String
  comment : String
  deriving DecidableEq, Repr

/-- The words for the screens of a mod, of which the title and the author are told. -/
def Metadata.forMod (author application timestamp title modAuthor : String) : Metadata where
  author
  application
  timestamp
  comment := s!"Intermission screen for {title}. Ported from GZDoom mod made by {modAuthor}."

/-- The kind of document. -/
def documentType : String := "interlevel"

/-- The version of the format. -/
def documentVersion : String := "0.1.0"

/-- A frame as an object. -/
def Frame.json (f : Frame) : JsonValue :=
  .object [("image", .string f.image), ("type", .ofNat f.kind.code),
    ("duration", .ofBinary64 f.duration), ("maxduration", .ofNat f.maxDuration)]

/-- A condition as an object. -/
def Condition.json (c : Condition) : JsonValue :=
  .object [("condition", .ofNat c.kind.code), ("param", .ofNat c.param)]

/-- A list of conditions on one line. -/
def conditionsLayout (conditions : Option (List Condition)) : JsonValue.Layout :=
  .inline (.ofOption (fun cs => .array (cs.map Condition.json)) conditions)

/-- An animation with a line for each frame. -/
def Anim.layout (a : Anim) : JsonValue.Layout :=
  .object [("x", .inline (.ofInt a.x)), ("y", .inline (.ofInt a.y)),
    ("frames", .array (a.frames.map fun f => .inline f.json)),
    ("conditions", conditionsLayout a.conditions)]

/-- A layer. -/
def Layer.layout (l : Layer) : JsonValue.Layout :=
  .object [
    ("anims", .array (l.anims.map Anim.layout)),
    ("conditions", conditionsLayout l.conditions)]

/-- The layers, or null. -/
def layersLayout : Option (List Layer) → JsonValue.Layout
  | none => .inline .null
  | some layers => .array (layers.map Layer.layout)

/-- The words about the making. -/
def Metadata.layout (m : Metadata) : JsonValue.Layout :=
  .object [("author", .inline (.string m.author)), ("application", .inline (.string m.application)),
    ("timestamp", .inline (.string m.timestamp)), ("comment", .inline (.string m.comment))]

/-- A whole document. -/
def documentLayout (d : Data) (m : Metadata) : JsonValue.Layout :=
  .object [("type", .inline (.string documentType)), ("version", .inline (.string documentVersion)),
    ("metadata", m.layout),
    ("data", .object [("music", .inline (.ofOption .string d.music)),
      ("backgroundimage", .inline (.ofOption .string d.background)),
      ("layers", layersLayout d.layers)])]

/-- The text of a document. -/
def render (d : Data) (m : Metadata) : String :=
  String.ofList ((documentLayout d m).render 0)

end Interlude.Interlevel
