import Interlude.CommandLine.Arguments

/-!
# Requests

What the arguments of the program ask for: a conversion, the exit screen of an archive, the list of
its lumps, or words about the program itself.
-/

namespace Interlude.CommandLine

/-- What is asked of a conversion. -/
structure ConvertRequest where
  archive : Option String
  /-- The file with settings. -/
  config : Option String
  output : Option String
  title : Option String
  author : Option String
  porter : Option String
  music : Option String
  mapLump : Option String
  order : Option OrdinalOrder
  palette : Option String
  /-- Whether the pictures are left out. -/
  noGraphics : Bool
  /-- Whether text lumps are kept for later conversions. -/
  cache : Bool
  deriving DecidableEq, Repr

/-- What the program is asked for. -/
inductive Request where
  | convert (request : ConvertRequest)
  | endoom (archive : String) (plain : Bool)
  | lumps (archive : String)
  | version
  | help
  deriving DecidableEq, Repr

/-- The option that may be given everywhere: more messages. -/
def verbose : Flag := ⟨"verbose", some 'v', false, true⟩

/-- The option that asks for help. -/
def help : Flag := ⟨"help", some 'h', false, true⟩

/-- The option that asks for the version. -/
def version : Flag := ⟨"version", some 'V', false, true⟩

/-- An option with a value and no letter. -/
def valued (name : String) : Flag := ⟨name, none, true, false⟩

/-- An option without a value and without a letter. -/
def switch (name : String) : Flag := ⟨name, none, false, false⟩

/-- The options of a conversion. -/
def convertFlags : List Flag :=
  [verbose, help, ⟨"config", some 'c', true, false⟩, ⟨"out", some 'o', true, false⟩,
   valued "title", valued "author", valued "porter", valued "music", valued "mapinfo-lump",
   valued "ordinal-order", valued "palette", switch "no-graphics", switch "cache"]

/-- The options of the exit screen. -/
def endoomFlags : List Flag := [verbose, help, switch "plain"]

/-- The options of the list of lumps. -/
def lumpsFlags : List Flag := [verbose, help]

/-- A path, which must not be empty if it is given. -/
def path? (value : Option String) : Option (Option String) :=
  if value = some "" then none else some value

/-- An order, whose word must be known if it is given. -/
def order? (value : Option String) : Option (Option OrdinalOrder) :=
  match value with
  | none => some none
  | some word => (OrdinalOrder.ofWord? word).map some

/-- The one operand that may be given. -/
def operand? (given : List Given) : Option (Option String) :=
  match operands given with
  | [] => some none
  | [value] => path? (some value)
  | _ => none

/-- The conversion that is asked for. -/
def convertOf? (given : List Given) : Option Request := do
  return .convert {
    archive := ← operand? given
    config := ← path? (valueOf? given "config")
    output := ← path? (valueOf? given "out")
    title := valueOf? given "title"
    author := valueOf? given "author"
    porter := valueOf? given "porter"
    music := valueOf? given "music"
    mapLump := valueOf? given "mapinfo-lump"
    order := ← order? (valueOf? given "ordinal-order")
    palette := ← path? (valueOf? given "palette")
    noGraphics := isGiven given "no-graphics"
    cache := isGiven given "cache" }

/-- The exit screen that is asked for. -/
def endoomOf? (given : List Given) : Option Request := do
  return .endoom (← (← operand? given)) (isGiven given "plain")

/-- The list of lumps that is asked for. -/
def lumpsOf? (given : List Given) : Option Request := do
  return .lumps (← (← operand? given))

/-- The request of a command with its arguments. -/
def commandOf? (flags : List Flag) (request : List Given → Option Request)
    (arguments : List String) : Option Request := do
  let given ← readArguments flags none arguments
  if isGiven given "help" then return .help
  if areUnrepeated flags given then request given else none

/-- The request of letters after one dash before the command, if they make one. The outer option
tells whether the letters are known. -/
def requestOfLetters? : List Char → Option (Option Request)
  | [] => some none
  | 'v' :: rest => requestOfLetters? rest
  | 'V' :: _ => some (some .version)
  | 'h' :: _ => some (some .help)
  | _ => none

/-- The request of all arguments, or nothing if they make none. -/
def Request.ofArguments? : List String → Option Request
  | [] => none
  | argument :: rest =>
    match argument with
    | "convert" => commandOf? convertFlags convertOf? rest
    | "endoom" => commandOf? endoomFlags endoomOf? rest
    | "lumps" => commandOf? lumpsFlags lumpsOf? rest
    | "help" => some .help
    | "--help" => some .help
    | "--version" => some .version
    | "--verbose" => ofArguments? rest
    | argument =>
      match argument.toList with
      | '-' :: c :: cs =>
        match requestOfLetters? (c :: cs) with
        | none => none
        | some (some request) => some request
        | some none => ofArguments? rest
      | _ => none

end Interlude.CommandLine
