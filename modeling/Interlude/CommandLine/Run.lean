import Interlude.CommandLine.Request
import Interlude.Conversion.Basic
import Interlude.Settings.Source

/-!
# Answering requests

Each request is answered with a text, or fails with an error and the errors behind it. What was
written before an error stays written.
-/

namespace Interlude.CommandLine

/-- How the program ends. -/
structure Outcome where
  /-- Zero for success, one for an error, two for arguments that make no request. -/
  exit : Nat
  output : String
  /-- The text of the error, and of the errors behind it. -/
  causes : List String
  deriving DecidableEq, Repr

namespace Outcome

/-- Success with a text. -/
def success (output : String) : Outcome := ⟨0, output, []⟩

/-- An error after a text. -/
def failure (output : String) (causes : List String) : Outcome := ⟨1, output, causes⟩

/-- The arguments make no request. -/
def usage : Outcome := ⟨2, "", []⟩

end Outcome

/-- The words about the version. -/
def versionText : String := "wadport 0.1.0\n"

/-- The words about the arguments. -/
def helpText : String :=
  "Usage: wadport [OPTIONS] <COMMAND>\n\n" ++
  "Commands:\n" ++
  "  convert  Convert the intermission screens and MAPINFO of an archive\n" ++
  "  endoom   Print the ENDOOM exit screen\n" ++
  "  lumps    List the lump directory with the category of each lump\n\n" ++
  "Options:\n" ++
  "  -v, --verbose...  More log output\n" ++
  "  -h, --help        Print help\n" ++
  "  -V, --version     Print version\n"

/-- A text with blanks after it up to a width. -/
def padRight (width : Nat) (s : String) : String :=
  s ++ String.ofList (List.replicate (width - s.length) ' ')

/-- A number with blanks before it up to a width. -/
def padLeft (width n : Nat) : String :=
  let digits := Decimal.digitsOf n
  String.ofList (List.replicate (width - digits.length) ' ' ++ digits)

/-- The line for a lump. -/
def lumpLine (index : Nat) (e : LumpEntry) (category : Option Category) : String :=
  let category := (category.map Category.name).getD "-"
  s!"{padLeft 5 index} {padRight 8 e.name} {padLeft 9 e.size.toNat} {category}\n"

/-- The line for a conversion. -/
def reportLine (o : Options) (r : Report) : String :=
  s!"{o.archive} -> {o.output}: {r.maps} maps, {r.scripts.length} scripts, " ++
    s!"{r.images.length} images\n"

/-- How a program ended, with the warnings that it gave. -/
abbrev Ending := Outcome × List ConversionWarning

variable {m : Type → Type} [Monad m] [FileStore m]

/-- Runs conversions one after the other up to the first one that fails. -/
def convertAll (now : String) (output : String) (warnings : List ConversionWarning) :
    List Options → m Ending
  | [] => return (.success output, warnings)
  | o :: rest => do
    let (result, session) ← convert o now
    let warnings := warnings ++ session.warnings
    match result with
    | .ok report => convertAll now (output ++ reportLine o report) warnings rest
    | .error e => return (.failure output (s!"converting {o.archive}" :: e.causes), warnings)

/-- The options of a conversion of which the archive is named: those that the settings have for it, with what the
request gives in their place. -/
def ConvertRequest.options (r : ConvertRequest) (s : Settings) (archive : String) : Options :=
  let o := s.optionsFor archive (r.output.getD (Path.withoutExtension archive))
  { o with
    title := r.title.getD o.title
    author := r.author.getD o.author
    porter := r.porter.getD o.porter
    music := r.music <|> o.music
    mapLump := r.mapLump.getD o.mapLump
    order := r.order.getD o.order
    palette := r.palette <|> o.palette
    saveGraphics := if r.noGraphics then false else o.saveGraphics
    cache := if r.cache then true else o.cache }

/-- Answers a request for a conversion. -/
def runConvert (now : String) (environment : List (String × String)) (r : ConvertRequest) :
    m Ending := do
  match ← Settings.load r.config environment with
  | none => return (.failure "" ["loading configuration"], [])
  | some settings =>
    match r.archive, settings.jobs with
    | some archive, _ => convertAll now "" [] [r.options settings archive]
    | none, [] =>
      return (.failure "" ["nothing to convert: give an archive or a config file with " ++
        "[[conversion]] tables"], [])
    | none, _ => convertAll now "" [] settings.conversions

/-- Answers a request about an archive with what is found in it. -/
def withArchive (path : String) (answer : Archive → LumpTable → Outcome) : m Ending := do
  match ← Archive.openFile path with
  | .error e => return (.failure "" (s!"opening {path}" :: e.causes), [])
  | .ok archive =>
    let sorted := archive.sorted none
    return (answer archive sorted.table, sorted.warnings.map .sorting)

/-- The exit screen of an archive. -/
def endoomOutcome (path : String) (plain : Bool) (table : LumpTable) : Outcome :=
  match table.screen? with
  | none => .failure "" [s!"{path}: no ENDOOM lump"]
  | some screen => .success (if plain then screen.plain else screen.ansi)

/-- The list of the lumps of an archive. -/
def lumpsOutcome (archive : Archive) (table : LumpTable) : Outcome :=
  .success (String.join (archive.entries.zipIdx.map fun (e, index) =>
    lumpLine index e (table.categoryAt? index)))

/-- Answers the request that arguments make. -/
def run (now : String) (environment : List (String × String)) (arguments : List String) :
    m Ending := do
  match Request.ofArguments? arguments with
  | none => return (.usage, [])
  | some .version => return (.success versionText, [])
  | some .help => return (.success helpText, [])
  | some (.convert r) => runConvert now environment r
  | some (.endoom path plain) => withArchive path fun _ table => endoomOutcome path plain table
  | some (.lumps path) => withArchive path lumpsOutcome

end Interlude.CommandLine
