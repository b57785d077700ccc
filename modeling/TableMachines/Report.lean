import TableMachines.Text.Inspect

namespace TableMachines

inductive Fault where
  | stepLimitExceeded (limit : Nat)
  | unknownMachine (name : String)
  | unsupported (operation : String)
  | invalidTable (problem : String)
  deriving DecidableEq

namespace Fault

def kind : Fault → String
  | stepLimitExceeded _ => "StepLimitExceeded"
  | unknownMachine _ => "UnknownMachine"
  | unsupported _ => "Unsupported"
  | invalidTable _ => "ValidationError"

def message : Fault → String
  | stepLimitExceeded limit => "Machine did not halt within " ++ Text.natText limit ++ " steps"
  | unknownMachine name => "Unknown machine: " ++ name
  | unsupported operation => "Unsupported operation: " ++ operation
  | invalidTable problem => "Rule table validation error: " ++ problem

instance : Inspect Fault where
  inspect f := Text.taggedText f.kind <|
    match f with
    | stepLimitExceeded limit => inspect limit
    | unknownMachine name => inspect name
    | unsupported operation => inspect operation
    | invalidTable problem => inspect problem

end Fault

inductive Level where
  | trace
  | debug
  deriving DecidableEq

structure LogEntry where
  level : Level
  message : String
  fields : List (String × String)

class Event (E : Type) where
  entry : E → LogEntry

def Level.name : Level → String
  | .trace => "TRACE"
  | .debug => "DEBUG"

end TableMachines
