/-
# Commands

Reading the arguments of the command line.  Options stand anywhere behind the command, each at most
once, with their values behind an equals sign or as the next argument; behind `--` everything is
positional.
-/
import CodeAtlas.Text.Blank
import CodeAtlas.Text.Decimal
import CodeAtlas.Text.Split

namespace CodeAtlas.Cli

/-- The options of the command that loads a workspace. -/
structure IndexOptions where
  path : String
  /-- The directory of the snapshot; the workspace itself when it is not given. -/
  out : Option String := none
  config : Option String := none
  base : Option String := none
  workers : Option Nat := none
  noPrune : Bool := false
deriving DecidableEq, Repr

/-- What the program is asked to do. -/
inductive Command where
  /-- Load a workspace and write a snapshot. -/
  | index (options : IndexOptions)
  /-- Search the sources of a workspace. -/
  | search (path query : String) (snapshot : Option String) (json : Bool)
  /-- Describe a snapshot or the items of a name in it. -/
  | inspect (snapshot : String) (name : Option String)
  | version
  | help
deriving DecidableEq, Repr

/-! ## Options -/

/-- The options a command knows, without their dashes. -/
structure OptionNames where
  valued : List String
  flags : List String

/-- The arguments of a command, sorted out. -/
structure Arguments where
  positional : List String := []
  values : List (String × String) := []
  flags : List String := []
  /-- Whether help was asked for; nothing behind that counts. -/
  wantsHelp : Bool := false

namespace Arguments

/-- Adds the value of an option that was not given before. -/
def addValue? (arguments : Arguments) (name value : String) : Option Arguments :=
  if (arguments.values.lookup name).isSome then none
  else some { arguments with values := (name, value) :: arguments.values }

/-- Adds a flag that was not given before. -/
def addFlag? (arguments : Arguments) (name : String) : Option Arguments :=
  if arguments.flags.contains name then none
  else some { arguments with flags := name :: arguments.flags }

/-- Whether an argument is an option and not a value.  A single dash is a value. -/
def isOption (argument : String) : Bool :=
  Text.startsWith "-" argument && argument != "-"

/-- Sorts arguments out; none for an unknown option, a repeated one, or one whose value is
missing. -/
def scan? (known : OptionNames) : List String → Arguments → Option Arguments
  | [], arguments => some arguments
  | argument :: rest, arguments =>
    if argument == "--" then some { arguments with positional := arguments.positional ++ rest }
    else if !isOption argument then
      scan? known rest { arguments with positional := arguments.positional ++ [argument] }
    else
      match Text.stripLead? "--" argument with
      | none => if Text.startsWith "-h" argument then some { arguments with wantsHelp := true } else none
      | some body =>
        if body == "help" then some { arguments with wantsHelp := true }
        else if known.flags.contains body then
          (arguments.addFlag? body).bind (scan? known rest)
        else
          match Text.splitOnce '=' body with
          | some (name, value) =>
            if known.valued.contains name then (arguments.addValue? name value).bind (scan? known rest)
            else none
          | none =>
            if known.valued.contains body then
              match rest with
              | [] => none
              | value :: rest =>
                if isOption value then none
                else (arguments.addValue? body value).bind (scan? known rest)
            else none

/-- The only positional argument, which must not be empty. -/
def onlyPath? (arguments : Arguments) : Option String :=
  match arguments.positional with
  | [path] => if path.isEmpty then none else some path
  | _ => none

/-- The path given with an option, if it is given; an empty path is refused. -/
def path? (arguments : Arguments) (name : String) : Option (Option String) :=
  match arguments.values.lookup name with
  | none => some none
  | some path => if path.isEmpty then none else some (some path)

/-- The number given with an option, if it is given. -/
def number? (arguments : Arguments) (name : String) : Option (Option Nat) :=
  match arguments.values.lookup name with
  | none => some none
  | some text => (Text.readWord64? text).map some

end Arguments

/-! ## Commands -/

namespace Command

/-- The command for loading. -/
def ofIndexArgs? (arguments : Arguments) : Option Command := do
  return .index
    { path := ← arguments.onlyPath?
      out := ← arguments.path? "out"
      config := ← arguments.path? "config"
      base := ← arguments.path? "base"
      workers := ← arguments.number? "workers"
      noPrune := arguments.flags.contains "no-prune" }

/-- The command for searching; the query has to be given. -/
def ofSearchArgs? (arguments : Arguments) : Option Command := do
  let path ← arguments.onlyPath?
  let query ← (← arguments.path? "query")
  let snapshot ← arguments.path? "snapshot"
  return .search path query snapshot (arguments.flags.contains "json")

/-- The command for inspecting. -/
def ofInspectArgs? (arguments : Arguments) : Option Command := do
  return .inspect (← arguments.onlyPath?) (arguments.values.lookup "fqn")

/-- Reads the arguments of a command. -/
def ofOptions? (known : OptionNames) (build? : Arguments → Option Command) (args : List String) :
    Option Command := do
  let arguments ← Arguments.scan? known args {}
  if arguments.wantsHelp then return .help
  build? arguments

/-- Reads the arguments of the program; none when they are wrong. -/
def ofArgs? : List String → Option Command
  | "--version" :: _ => some .version
  | "-V" :: _ => some .version
  | "--help" :: _ => some .help
  | "-h" :: _ => some .help
  | "help" :: _ => some .help
  | "index" :: args => ofOptions? ⟨["out", "config", "base", "workers"], ["no-prune"]⟩ ofIndexArgs? args
  | "search" :: args => ofOptions? ⟨["query", "snapshot"], ["json"]⟩ ofSearchArgs? args
  | "inspect" :: args => ofOptions? ⟨["fqn"], []⟩ ofInspectArgs? args
  | _ => none

end Command

end CodeAtlas.Cli
