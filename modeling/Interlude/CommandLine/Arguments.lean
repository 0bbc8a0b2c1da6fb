import Interlude.MapTable.Basic

/-!
# Arguments of commands

A command takes options, which start with a dash, and operands. An option has a long name and may
have a letter; some options take a value, which follows the name or is attached to it. Letters may
be put together after one dash. After two dashes all that follows are operands.
-/

namespace Interlude.CommandLine

/-- An option that a command takes. -/
structure Flag where
  name : String
  letter : Option Char
  takesValue : Bool
  /-- Whether it may be given more than once. -/
  repeats : Bool
  deriving DecidableEq, Repr

/-- What was given to a command. -/
inductive Given where
  | flag (name : String) (value : Option String)
  | operand (value : String)
  deriving DecidableEq, Repr

/-- The characters before and behind an equals sign, if there is one. -/
def splitValue (s : List Char) : List Char × Option String :=
  match s.dropWhile (· ≠ '=') with
  | [] => (s, none)
  | _ :: value => (s.takeWhile (· ≠ '='), some (String.ofList value))

/-- Whether an argument cannot be the value of the option before it. -/
def isDashed (argument : String) : Bool :=
  match argument.toList with
  | '-' :: _ :: _ => true
  | _ => false

/-- What letters after one dash give: options, and perhaps the one that waits for a value. -/
def letters (flags : List Flag) : List Char → Option (List Given × Option Flag)
  | [] => some ([], none)
  | c :: rest => do
    let flag ← flags.find? fun f => f.letter = some c
    if flag.takesValue then
      match rest with
      | [] => return ([], some flag)
      | '=' :: value => return ([.flag flag.name (String.ofList value)], none)
      | value => return ([.flag flag.name (String.ofList value)], none)
    else
      let (given, waiting) ← letters flags rest
      return (.flag flag.name none :: given, waiting)

/-- What a name after two dashes gives. -/
def longName (flags : List Flag) (s : List Char) : Option (List Given × Option Flag) := do
  let (name, value) := splitValue s
  let flag ← flags.find? fun f => f.name = String.ofList name
  match flag.takesValue, value with
  | true, some value => return ([.flag flag.name value], none)
  | true, none => return ([], some flag)
  | false, none => return ([.flag flag.name none], none)
  | false, some _ => none

/-- What the arguments of a command give, unless an option is unknown, lacks its value or has one
that it does not take. `waiting` is the option whose value comes next. -/
def readArguments (flags : List Flag) (waiting : Option Flag) : List String → Option (List Given)
  | [] => if waiting.isNone then some [] else none
  | argument :: rest =>
    match waiting with
    | some flag =>
      if isDashed argument then none
      else do return .flag flag.name argument :: (← readArguments flags none rest)
    | none =>
      if argument = "--" then some (rest.map .operand)
      else
        let read := match argument.toList with
          | '-' :: '-' :: name => longName flags name
          | '-' :: c :: cs => letters flags (c :: cs)
          | _ => some ([.operand argument], none)
        do
          let (given, waiting) ← read
          return given ++ (← readArguments flags waiting rest)

/-- The value of an option. -/
def valueOf? (given : List Given) (name : String) : Option String :=
  given.findSome? fun
    | .flag other value => if other = name then value else none
    | .operand _ => none

/-- Whether an option was given. -/
def isGiven (given : List Given) (name : String) : Bool :=
  given.any fun
    | .flag other _ => other == name
    | .operand _ => false

/-- The operands. -/
def operands (given : List Given) : List String :=
  given.filterMap fun
    | .operand value => some value
    | .flag _ _ => none

/-- Whether options that must not be given twice are given once at most. -/
def areUnrepeated (flags : List Flag) (given : List Given) : Bool :=
  flags.all fun f => f.repeats || given.countP (fun g => isGiven [g] f.name) ≤ 1

end Interlude.CommandLine
