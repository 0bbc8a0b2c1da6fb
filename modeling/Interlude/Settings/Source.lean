import Interlude.Files.Basic
import Interlude.Files.Path
import Interlude.Decimal.Shortest
import Interlude.Settings.Basic
import Interlude.Settings.Key
import Interlude.Text.Utf8
import Interlude.Text.Word

/-!
# Where settings come from

Settings are read from a TOML table. The fields of a file give its keys their values, and after them
variables of the environment with a common start of their names. Unknown fields are passed over; a
field of the wrong type makes all settings invalid.
-/

namespace Interlude

/-- The text of a floating point number without an exponent. -/
def Binary64.plainText (x : Binary64) : String :=
  let magnitude :=
    if x.isFinite then x.shortest.positional false
    else if x.magnitude = (infinity false).magnitude then ['i', 'n', 'f']
    else []
  if magnitude.isEmpty then "NaN"
  else String.ofList (if x.negative then '-' :: magnitude else magnitude)

namespace Toml

/-- The text of a value that is a text. -/
def text? : Toml → Option String
  | text s => some s
  | moment s => some s
  | _ => none

/-- The text of a value that is no array and no table. -/
def shownText? : Toml → Option String
  | text s => some s
  | moment s => some s
  | integer n => some (String.ofList (Decimal.signed n))
  | float x => some x.plainText
  | boolean b => some (if b then "true" else "false")
  | _ => none

/-- A truth value. -/
def boolean? : Toml → Option Bool
  | boolean b => some b
  | _ => none

/-- The order of a word in its exact spelling. -/
def orderWord? : String → Option OrdinalOrder
  | "declaration" => some .declaration
  | "sorted_by_token" => some .sortedByToken
  | _ => none

/-- An order: its word, or a table with the word as its only field and nothing in it. -/
def order? : Toml → Option OrdinalOrder
  | text s => orderWord? s
  | table [(s, table [])] => orderWord? s
  | _ => none

/-- A field that may be missing but must have the right type. -/
def optional? (fields : List (String × Toml)) (name : String) (read : Toml → Option α) :
    Option (Option α) :=
  match fields.lookup name with
  | none => some none
  | some v => (read v).map some

end Toml

/-- The values for conversions in a table. -/
def Defaults.ofFields? (fields : List (String × Toml)) : Option Defaults := do
  return {
    author := ← Toml.optional? fields "author" Toml.text?
    porter := ← Toml.optional? fields "porter" Toml.text?
    music := ← Toml.optional? fields "music" Toml.text?
    mapLump := ← Toml.optional? fields "mapinfo_lump" Toml.text?
    order := ← Toml.optional? fields "ordinal_order" Toml.order?
    saveGraphics := ← Toml.optional? fields "save_graphics" Toml.boolean?
    cache := ← Toml.optional? fields "cache" Toml.boolean?
    palette := ← Toml.optional? fields "palette" Toml.text? }

/-- A conversion in a table of its own. -/
def Job.ofToml? : Toml → Option Job
  | .table fields => do
    return {
      archive := ← (fields.lookup "archive") >>= Toml.shownText?
      output := ← (fields.lookup "output") >>= Toml.shownText?
      title := ← Toml.optional? fields "title" Toml.shownText?
      own := ← Defaults.ofFields? fields }
  | _ => none

namespace Settings

/-- The conversions of a list. -/
def jobsOf? : Toml → Option (List Job)
  | .array items => items.mapM Job.ofToml?
  | _ => none

/-- The settings that give keys their values. -/
def ofKeys? (settings : List (String × Toml)) : Option Settings := do
  let fields := (Toml.ofKeys settings).fields
  return {
    defaults := ← Defaults.ofFields? fields
    jobs := (← Toml.optional? fields "conversion" jobsOf?).getD [] }

/-- The fields of a TOML text. -/
def fieldsOfText? (source : String) : Option (List (String × Toml)) :=
  (Toml.ofText? source).map Toml.fields

/-- The settings in a TOML text. -/
def ofText? (source : String) : Option Settings :=
  fieldsOfText? source >>= ofKeys?

/-- The start of the names of variables that hold settings, in lower case. -/
def variableStart : String := "wadport_"

/-- The value of a variable: a truth value or a number if it reads as one, and else a text. -/
def variableValue (value : String) : Toml :=
  let chars := value.toList
  match Text.lower value with
  | "true" => .boolean true
  | "false" => .boolean false
  | _ =>
    match (Decimal.exponent? chars).bind Toml.inRange, Binary64.ofText? chars with
    | some n, _ => .integer n
    | none, some x => .float x
    | none, none => .text value

/-- The keys that the environment gives values. -/
def variableFields (environment : List (String × String)) : List (String × Toml) :=
  environment.filterMap fun (name, value) =>
    let name := Text.lower name
    if name.startsWith variableStart then
      some (String.ofList (name.toList.drop variableStart.length), variableValue value)
    else none

/-- The text of a file without the mark of the byte order. -/
def textOfFile (bytes : ByteArray) : String :=
  let bytes := bytes.data.toList
  Utf8.text (if [0xEF, 0xBB, 0xBF].isPrefixOf bytes then bytes.drop 3 else bytes)

variable {m : Type → Type} [Monad m] [FileStore m]

/-- The bytes of the file at a path, or else at the path with an extension. -/
def readSource (path : String) : m (Option ByteArray) := do
  match ← FileStore.readFile path with
  | .ok bytes => return some bytes
  | .error _ =>
    match ← FileStore.readFile (Path.withSuffix path ".toml") with
    | .ok bytes => return some bytes
    | .error _ => return none

/-- The settings of a file, if one is named, and of the environment. -/
def load (path : Option String) (environment : List (String × String)) : m (Option Settings) := do
  let overrides := variableFields environment
  match path with
  | none => return ofKeys? overrides
  | some path =>
    let bytes ← readSource path
    return do ofKeys? ((← fieldsOfText? (textOfFile (← bytes))) ++ overrides)

end Settings

end Interlude
