/-!
What the arguments of a command ask for. Options may be given before and inside a command, each at
most once a place, with their value attached or as the next argument.
-/

namespace TableMachines.CommandLine

inductive OptionName where
  | verbose
  | version
  | help
  | machine
  | input
  | trace
  | json
  deriving DecidableEq

structure OptionSpec where
  name : OptionName
  long : List Char
  short : Option Char
  takesValue : Bool

/-- Accepted everywhere; it changes nothing that a command prints. -/
def verboseOption : OptionSpec := ⟨.verbose, "verbose".toList, some 'v', false⟩
def versionOption : OptionSpec := ⟨.version, "version".toList, some 'V', false⟩
def helpOption : OptionSpec := ⟨.help, "help".toList, some 'h', false⟩
def machineOption : OptionSpec := ⟨.machine, "machine".toList, some 'm', true⟩
def inputOption : OptionSpec := ⟨.input, "input".toList, some 'i', true⟩
def traceOption : OptionSpec := ⟨.trace, "trace".toList, some 'd', false⟩
def jsonOption : OptionSpec := ⟨.json, "json".toList, none, false⟩

abbrev Given := List (OptionName × List Char)

inductive Stop where
  | usage
  | help
  | version
  deriving DecidableEq

def give (given : Given) (name : OptionName) (value : List Char) : Except Stop Given :=
  match name with
  | .help => .error .help
  | .version => .error .version
  | name => if given.any (·.1 == name) then .error .usage else .ok (given ++ [(name, value)])

def giveLong (specs : List OptionSpec) (given : Given) (arg : List Char) :
    Except Stop (Given × Option OptionName) :=
  match specs.find? (·.long == arg.takeWhile (· ≠ '=')), arg.dropWhile (· ≠ '=') with
  | none, _ => .error .usage
  | some spec, [] =>
    if spec.takesValue then .ok (given, some spec.name) else (give given spec.name []).map (·, none)
  | some spec, _ :: value =>
    if spec.takesValue then (give given spec.name value).map (·, none) else .error .usage

def giveShort (specs : List OptionSpec) (given : Given) :
    List Char → Except Stop (Given × Option OptionName)
  | [] => .ok (given, none)
  | c :: cs =>
    match specs.find? (·.short == some c) with
    | none => .error .usage
    | some spec =>
      if spec.takesValue then
        match cs with
        | [] => .ok (given, some spec.name)
        | '=' :: value => (give given spec.name value).map (·, none)
        | value => (give given spec.name value).map (·, none)
      else do giveShort specs (← give given spec.name []) cs

/-- Two hyphens alone end the options, after which nothing else may come. -/
def readOptions (specs : List OptionSpec) (given : Given) (pending : Option OptionName) :
    List (List Char) → Except Stop (Given × List (List Char))
  | [] => if pending.isSome then .error .usage else .ok (given, [])
  | arg :: args =>
    match pending, arg with
    | some _, '-' :: _ :: _ => .error .usage
    | some name, value => do readOptions specs (← give given name value) none args
    | none, ['-', '-'] => if args.isEmpty then .ok (given, []) else .error .usage
    | none, '-' :: '-' :: option => do
      let (given, pending) ← giveLong specs given option
      readOptions specs given pending args
    | none, '-' :: c :: cs => do
      let (given, pending) ← giveShort specs given (c :: cs)
      readOptions specs given pending args
    | none, _ => .ok (given, arg :: args)

inductive Command where
  | list
  | run (machine input : String) (trace json : Bool)
  | determinize (machine : String) (json : Bool)
  deriving DecidableEq

def valueOf? (given : Given) (name : OptionName) : Option String :=
  (given.find? (·.1 == name)).map (String.ofList ·.2)

def has (given : Given) (name : OptionName) : Bool :=
  given.any (·.1 == name)

def readAll (specs : List OptionSpec) (args : List (List Char)) : Except Stop Given := do
  match ← readOptions (specs ++ [verboseOption, helpOption]) [] none args with
  | (given, []) => return given
  | _ => .error .usage

def Command.read : List (List Char) → Except Stop Command
  | [] => .error .usage
  | name :: args =>
    match String.ofList name with
    | "list" => do
      let _ ← readAll [] args
      return .list
    | "run" => do
      let given ← readAll [machineOption, inputOption, traceOption, jsonOption] args
      match valueOf? given .machine with
      | none => .error .usage
      | some machine =>
        return .run machine ((valueOf? given .input).getD "") (has given .trace) (has given .json)
    | "determinize" => do
      let given ← readAll [machineOption, jsonOption] args
      match valueOf? given .machine with
      | none => .error .usage
      | some machine => return .determinize machine (has given .json)
    | "help" => .error (if args.isEmpty then .help else .usage)
    | _ => .error .usage

def command (args : List String) : Except Stop Command := do
  let (_, rest) ← readOptions [verboseOption, versionOption, helpOption] [] none
    (args.map String.toList)
  Command.read rest

end TableMachines.CommandLine
