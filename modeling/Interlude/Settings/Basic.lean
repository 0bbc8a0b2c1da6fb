import Interlude.Conversion.Options

/-!
# Settings

Settings hold values for all conversions and a list of conversions that may have values of their
own. What is set nearer to a conversion wins: its own value, then the value for all, then the
standard one.
-/

namespace Interlude

/-- Values for conversions, each of which may be left open. -/
structure Defaults where
  author : Option String
  porter : Option String
  music : Option String
  mapLump : Option String
  order : Option OrdinalOrder
  saveGraphics : Option Bool
  cache : Option Bool
  palette : Option String
  deriving DecidableEq, Repr

namespace Defaults

/-- Nothing is set. -/
def none : Defaults :=
  ⟨.none, .none, .none, .none, .none, .none, .none, .none⟩

/-- The values of the first, and those of the second where the first leaves one open. -/
def orElse (first second : Defaults) : Defaults where
  author := first.author <|> second.author
  porter := first.porter <|> second.porter
  music := first.music <|> second.music
  mapLump := first.mapLump <|> second.mapLump
  order := first.order <|> second.order
  saveGraphics := first.saveGraphics <|> second.saveGraphics
  cache := first.cache <|> second.cache
  palette := first.palette <|> second.palette

/-- Options with the values that are set. -/
def applyTo (d : Defaults) (o : Options) : Options :=
  { o with
    author := d.author.getD o.author
    porter := d.porter.getD o.porter
    music := d.music <|> o.music
    mapLump := d.mapLump.getD o.mapLump
    order := d.order.getD o.order
    saveGraphics := d.saveGraphics.getD o.saveGraphics
    cache := d.cache.getD o.cache
    palette := d.palette <|> o.palette }

end Defaults

/-- A conversion in a list of them. -/
structure Job where
  archive : String
  output : String
  title : Option String
  own : Defaults
  deriving DecidableEq, Repr

/-- Values for all conversions, and a list of conversions. -/
structure Settings where
  defaults : Defaults
  jobs : List Job
  deriving DecidableEq, Repr

namespace Settings

/-- The options of a conversion. -/
def optionsOf (s : Settings) (job : Job) : Options :=
  let o := (job.own.orElse s.defaults).applyTo (.standard job.archive job.output)
  { o with title := job.title.getD o.title }

/-- The options for an archive of which nothing else is said. -/
def optionsFor (s : Settings) (archive output : String) : Options :=
  s.optionsOf ⟨archive, output, none, .none⟩

/-- The options of all conversions in the list. -/
def conversions (s : Settings) : List Options :=
  s.jobs.map s.optionsOf

end Settings

end Interlude
