import Mathlib
import Interlude.CommandLine.Run
import Interlude.Proofs.CommandLine.Arguments
import Interlude.Proofs.Settings.Tables

/-!
# The same options from arguments and from a list of conversions

A conversion can be asked for by arguments, or it can stand in a list of conversions. The two ways lay values over each
other in a different manner: for arguments the values for all conversions are laid over the standard ones first, and
then what is given; for the list the values of the conversion and those for all are joined first. What comes out is the
same, as each value is the one that is set nearest. Arguments cannot ask for pictures or forbid the cache, so this is
about conversions that do neither.
-/

namespace Interlude

open CommandLine (ConvertRequest Request)

/-! ### Values that are set nearest -/

/-- The options of a conversion: each value is that of the conversion if it has one, or else that for all conversions
if there is one, or else the standard one. -/
def Job.nearest (d : Defaults) (job : Job) : Options :=
  let standard := Options.standard job.archive job.output
  { archive := job.archive
    output := job.output
    title := job.title.getD standard.title
    author := (job.own.author <|> d.author).getD standard.author
    porter := (job.own.porter <|> d.porter).getD standard.porter
    music := (job.own.music <|> d.music) <|> standard.music
    mapLump := (job.own.mapLump <|> d.mapLump).getD standard.mapLump
    order := (job.own.order <|> d.order).getD standard.order
    saveGraphics := (job.own.saveGraphics <|> d.saveGraphics).getD standard.saveGraphics
    cache := (job.own.cache <|> d.cache).getD standard.cache
    palette := (job.own.palette <|> d.palette) <|> standard.palette
    timestamp := standard.timestamp }

/-- The conversions of a list have their own options, whatever else is in the list. -/
theorem Settings.conversions_eq_map_nearest (s : Settings) : s.conversions = s.jobs.map (Job.nearest s.defaults) :=
  rfl

/-! ### Conversions that arguments can ask for -/

/-- The values can be given as arguments, which neither ask for pictures nor forbid the cache. -/
def Defaults.FitsArguments (own : Defaults) : Prop :=
  own.saveGraphics ≠ some true ∧ own.cache ≠ some false

instance (own : Defaults) : Decidable own.FitsArguments :=
  inferInstanceAs (Decidable (_ ∧ _))

/-- The request for a conversion, with the settings of a file or without. -/
def Job.request (job : Job) (config : Option String) : ConvertRequest where
  archive := some job.archive
  config
  output := some job.output
  title := job.title
  author := job.own.author
  porter := job.own.porter
  music := job.own.music
  mapLump := job.own.mapLump
  order := job.own.order
  palette := job.own.palette
  noGraphics := job.own.saveGraphics == some false
  cache := job.own.cache == some true

/-- A value that is given is laid over one that was laid over another. -/
theorem getD_getD_orElse {α : Type} (given shared : Option α) (value : α) :
    given.getD (((none <|> shared : Option α)).getD value) = (given <|> shared).getD value := by
  cases given <;> rfl

/-- The options of the request are those that are set nearest. -/
theorem Job.options_request {job : Job} (hown : job.own.FitsArguments) (config : Option String) (s : Settings) :
    (job.request config).options s job.archive = job.nearest s.defaults := by
  obtain ⟨hsave, hcache⟩ := hown
  have hmusic : (job.own.music <|> ((none <|> s.defaults.music) <|> none)) =
      ((job.own.music <|> s.defaults.music) <|> none) := by
    cases job.own.music <;> rfl
  have hpalette : (job.own.palette <|> ((none <|> s.defaults.palette) <|> none)) =
      ((job.own.palette <|> s.defaults.palette) <|> none) := by
    cases job.own.palette <;> rfl
  have hgraphics : (if job.own.saveGraphics == some false then false
      else (none <|> s.defaults.saveGraphics : Option Bool).getD true) =
      (job.own.saveGraphics <|> s.defaults.saveGraphics).getD true := by
    match hvalue : job.own.saveGraphics with
    | none => rfl
    | some false => rfl
    | some true => exact absurd hvalue hsave
  have hkept : (if job.own.cache == some true then true else (none <|> s.defaults.cache : Option Bool).getD false) =
      (job.own.cache <|> s.defaults.cache).getD false := by
    match hvalue : job.own.cache with
    | none => rfl
    | some true => rfl
    | some false => exact absurd hvalue hcache
  simp only [ConvertRequest.options, Settings.optionsFor, Settings.optionsOf, Defaults.applyTo, Defaults.orElse,
    Defaults.none, request, nearest, Options.standard, Option.getD_some, Option.getD_none, Options.mk.injEq, true_and,
    and_true]
  exact ⟨getD_getD_orElse _ _ _, getD_getD_orElse _ _ _, hmusic, getD_getD_orElse _ _ _, getD_getD_orElse _ _ _,
    hgraphics, hkept, hpalette⟩

/-- A conversion has the same options whether it is asked for by arguments or stands in a list, between any other
conversions: the ones that are set nearest. The settings with the list are read from their table, and the request is
read from its arguments, in which no path can be empty. -/
theorem options_request_eq_conversions (d : Defaults) (job : Job) (before after : List Job) (config : Option String)
    (hown : job.own.FitsArguments) :
    let s : Settings := ⟨d, before ++ job :: after⟩
    let r := job.request config
    r.options s job.archive = job.nearest d ∧
      s.conversions = before.map (Job.nearest d) ++ r.options s job.archive :: after.map (Job.nearest d) ∧
      Settings.ofKeys? s.fields = some s ∧
      (r.HasPaths → Request.ofArguments? r.arguments = some (.convert r)) := by
  intro s r
  have hoptions : r.options s job.archive = job.nearest d := job.options_request hown config s
  refine ⟨hoptions, ?_, s.ofKeys?_fields, ConvertRequest.ofArguments?_arguments⟩
  rw [hoptions, s.conversions_eq_map_nearest, List.map_append, List.map_cons]

/-- A conversion behind another one, with a title and an author of its own and without pictures, where there is a
cache for all. -/
theorem options_request_eq_conversions_second :
    let d : Defaults := { Defaults.none with author := some "Someone", cache := some true }
    let first : Job := ⟨"a.wad", "out/a", none, { Defaults.none with music := some "D_INTER" }⟩
    let job : Job := ⟨"b.pk3", "out/b", some "Bee",
      { Defaults.none with author := some "Someone Else", saveGraphics := some false }⟩
    let r := job.request none
    job.own.FitsArguments ∧ r.HasPaths ∧
      r.arguments = ["convert", "--out=out/b", "--title=Bee", "--author=Someone Else", "--no-graphics", "--", "b.pk3"] ∧
      Request.ofArguments? r.arguments = some (.convert r) ∧
      (⟨d, [first, job]⟩ : Settings).conversions =
        [first.nearest d, r.options ⟨d, [first, job]⟩ "b.pk3"] ∧
      r.options ⟨d, [first, job]⟩ "b.pk3" = ⟨"b.pk3", "out/b", "Bee", "Someone Else", "wadport", none, "MAPINFO",
        .declaration, false, true, none, none⟩ := by
  intro d first job r
  have hown : job.own.FitsArguments := by decide
  have hpaths : r.HasPaths := by decide
  obtain ⟨hnearest, hlist, -, hread⟩ := options_request_eq_conversions d job [first] [] none hown
  exact ⟨hown, hpaths, rfl, hread hpaths, hlist, hnearest.trans rfl⟩

end Interlude
