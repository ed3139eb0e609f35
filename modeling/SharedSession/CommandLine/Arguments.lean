import SharedSession.Text.Real

set_option autoImplicit false

/-!
# The arguments of a command line

A command line names a command and gives options. An option with a value takes it behind an equals
sign or as the next argument, which must not look like an option; each option may be given once in
front of the command and once behind it. Only the option for the settings file may stand in front
of the command; if it stands on both sides, the one behind counts. Behind a double dash nothing may
follow.

Arguments are taken in order, and the first that does not fit decides what is reported; a request
for help that comes before it is granted.
-/

namespace SharedSession.CommandLine

/-- What is to be done. -/
inductive Command where
  /-- print the stored session -/
  | inspect (store : Option String)
  /-- remove the stored session, if need be without the lock -/
  | expire (store : Option String) (force : Bool)
  /-- run one product and read commands for it -/
  | watch (product : String) (sampleRate : Float) (store : Option String)

/-- A command line that asks for work. -/
structure Invocation where
  /-- the settings file, if one is named -/
  config : Option String
  command : Command

/-- A command line that asks for information, or does not fit. -/
inductive Refusal where
  | help
  | version
  | noCommand
  /-- an argument fits nowhere -/
  | unexpected (argument : String)
  | noValue (option : String)
  /-- an option that takes no value has one -/
  | needlessValue (option : String)
  | repeated (option : String)
  | badValue (option value : String)
  | missing (option : String)
deriving DecidableEq, Repr, Inhabited

/-- The name that the program goes by. -/
def programName : String := "tabsync"

/-- The version of the program. -/
def programVersion : String := "0.2.0-alpha.1"

/-- What a refusal says. -/
def Refusal.message : Refusal → String
  | .help => "Usage: " ++ programName ++ " [--config PATH] inspect|expire|watch [OPTIONS]"
  | .version => programName ++ " " ++ programVersion
  | .noCommand => "a command is required: inspect, expire or watch"
  | .unexpected argument => "unexpected argument '" ++ argument ++ "'"
  | .noValue option => "a value is required for '" ++ option ++ "'"
  | .needlessValue option => "'" ++ option ++ "' takes no value"
  | .repeated option => "'" ++ option ++ "' cannot be used multiple times"
  | .badValue option value => "invalid value '" ++ value ++ "' for '" ++ option ++ "'"
  | .missing option => "'" ++ option ++ "' is required"

/-! ## Options -/

/-- What an option takes. -/
inductive Takes where
  /-- nothing: it is given or not -/
  | nothing
  | text
  /-- a path, which is not empty -/
  | path
  | real
deriving DecidableEq, Repr, Inhabited

/-- The option for the settings file. -/
def configOption : String := "--config"

/-- The option for the session's file. -/
def storeOption : String := "--store"

/-- The option that passes the lock by. -/
def forceOption : String := "--force"

/-- The option for the product's key. -/
def productOption : String := "--product"

/-- The option for the percentage of sessions to track. -/
def sampleRateOption : String := "--sample-rate"

/-- The options that are known at a place of the command line. -/
abbrev Known : Type := List (String × Takes)

/-- The options that have been given, with their values. -/
abbrev Given : Type := List (String × String)

/-- Whether a value can be used. -/
def Takes.admits : Takes → String → Bool
  | .nothing, _ => true
  | .text, _ => true
  | .path, v => v ≠ ""
  | .real, v => (Text.real? v).isSome

/-- Whether an argument looks like an option. -/
def looksLikeOption (arg : String) : Bool :=
  match arg.toList with
  | '-' :: _ :: _ => true
  | _ => false

/-- An option with two dashes as its name and the value behind its equals sign. -/
def splitOption (arg : String) : String × Option String :=
  let cs := arg.toList
  let name := cs.takeWhile (· != '=')
  (String.ofList name,
    match cs.dropWhile (· != '=') with
    | _ :: v => some (String.ofList v)
    | [] => none)

/-- Takes note of an option. -/
def note (given : Given) (name : String) (takes : Takes) (value : String) : Except Refusal Given :=
  if (given.lookup name).isSome then .error (.repeated name)
  else if takes.admits value then .ok (given ++ [(name, value)])
  else .error (.badValue name value)

/-- The answer to an option with one dash, of which only the first letter counts. -/
def shortOption (hasVersion : Bool) (arg : String) : Refusal :=
  match arg.toList with
  | _ :: 'h' :: _ => .help
  | _ :: 'V' :: _ => if hasVersion then .version else .unexpected arg
  | _ => .unexpected arg

/-- Takes the options in front; what is left starts with an argument that is none. -/
def readOptions (known : Known) (hasVersion : Bool) :
    List String → Given → Except Refusal (Given × List String)
  | [], given => .ok (given, [])
  | arg :: rest, given =>
    if !looksLikeOption arg then .ok (given, arg :: rest)
    else if arg = "--" then
      match rest with
      | [] => .ok (given, [])
      | next :: _ => .error (.unexpected next)
    else if !arg.startsWith "--" then .error (shortOption hasVersion arg)
    else
      let (name, attached) := splitOption arg
      match known.lookup name, attached with
      | some .nothing, some _ => .error (.needlessValue name)
      | some .nothing, none => do readOptions known hasVersion rest (← note given name .nothing "")
      | some takes, some value => do readOptions known hasVersion rest (← note given name takes value)
      | some takes, none =>
        match rest with
        | value :: rest =>
          if looksLikeOption value then .error (.noValue name)
          else do readOptions known hasVersion rest (← note given name takes value)
        | [] => .error (.noValue name)
      | none, attached =>
        let asked := if name = "--help" then some Refusal.help
          else if name = "--version" ∧ hasVersion then some .version
          else none
        match asked, attached with
        | some request, none => .error request
        | some _, some _ => .error (.needlessValue name)
        | none, _ => .error (.unexpected arg)

/-- Takes options up to the end. -/
def readAllOptions (known : Known) (args : List String) : Except Refusal Given := do
  match ← readOptions ((configOption, .path) :: known) false args [] with
  | (given, []) => .ok given
  | (_, arg :: _) => .error (.unexpected arg)

/-! ## Commands -/

/-- The percentage of sessions to track where none is given. -/
def defaultSampleRate : Float := 100.0

/-- The command of a name, with the options behind it. -/
def readCommand (name : String) (args : List String) : Except Refusal (Given × Command) :=
  match name with
  | "inspect" => do
    let given ← readAllOptions [(storeOption, .path)] args
    return (given, .inspect (given.lookup storeOption))
  | "expire" => do
    let given ← readAllOptions [(storeOption, .path), (forceOption, .nothing)] args
    return (given, .expire (given.lookup storeOption) (given.lookup forceOption).isSome)
  | "watch" => do
    let given ← readAllOptions
      [(productOption, .text), (sampleRateOption, .real), (storeOption, .path)] args
    match given.lookup productOption with
    | none => .error (.missing productOption)
    | some product =>
      let rate := ((given.lookup sampleRateOption).bind Text.real?).getD defaultSampleRate
      return (given, .watch product rate (given.lookup storeOption))
  | "help" =>
    match args with
    | [] => .error .help
    | [topic] =>
      if topic ∈ ["inspect", "expire", "watch", "help"] then .error .help
      else .error (.unexpected topic)
    | _ :: extra :: _ => .error (.unexpected extra)
  | name => .error (.unexpected name)

/-- What a command line asks for. -/
def readArguments (args : List String) : Except Refusal Invocation := do
  match ← readOptions [(configOption, .path)] true args [] with
  | (_, []) => .error .noCommand
  | (outer, name :: rest) =>
    let (inner, command) ← readCommand name rest
    return ⟨(inner.lookup configOption).or (outer.lookup configOption), command⟩

end SharedSession.CommandLine
