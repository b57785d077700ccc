import TableMachines.Catalog.Tables
import TableMachines.CommandLine.Args
import TableMachines.Finite.Forms
import TableMachines.Turing.Forms

namespace TableMachines.CommandLine

structure Outcome where
  lines : List String
  fault : Option Fault

def padTo (width : Nat) (s : String) : String :=
  s ++ String.ofList (List.replicate (width - s.length) ' ')

def listing : List String :=
  catalog.map fun entry =>
    padTo 26 entry.name ++ " " ++ padTo 5 entry.machine.family ++ " " ++ entry.description

def stepLine (r : Dtm.Run UInt32 Char) : String :=
  "Step: " ++ Text.natText r.steps ++ ", " ++ plain r.config

def haltLines (h : Halt) : List String :=
  ["", "Machine halted: " ++ h.name]

def traceFrom (m : Dtm UInt32 Char) : Nat → Dtm.Run UInt32 Char → List String × Except Fault Bool
  | left, r =>
    if m.accepting r.config then (haltLines .accepted, .ok true)
    else
      match left with
      | 0 => ([], .error (.stepLimitExceeded maxSteps))
      | left + 1 =>
        match m.step r with
        | (.moved, r') =>
          let (lines, result) := traceFrom m left r'
          (stepLine r' :: lines, result)
        | (.halt h, _) => (haltLines h, .ok (h == .accepted))

def traced? (bound : Nat) (machine : Machine) (input : List Char) :
    Option (List String × Except Fault Bool) :=
  match machine with
  | .dtm m head =>
    let r := m.startRun (.ofInput input blankSymbol head)
    let (lines, result) := traceFrom m maxSteps r
    some (stepLine r :: lines, result)
  | machine => (machine.accepts? bound input).map ([], ·)

def runReport (entry : NamedMachine) (input : String) (accepted : Bool) : Json :=
  .record [("machine", encode entry.name), ("family", encode entry.machine.family),
    ("input", encode input), ("accepted", .bool accepted)]

def dfaReport (entry : NamedMachine) (m : Dfa (SortedSet UInt32) Char) : Json :=
  .record [("machine", encode entry.name), ("start_state", encode m.start),
    ("accept_states", encode m.accept), ("rules", encode m.rules)]

def run? (bound : Nat) (name input : String) (trace json : Bool) : Option Outcome :=
  match Catalog.lookup name with
  | .error fault => some ⟨[], some fault⟩
  | .ok entry => do
    let (lines, result) ←
      if trace then traced? bound entry.machine input.toList
      else (entry.machine.accepts? bound input.toList).map ([], ·)
    match result with
    | .error fault => return ⟨lines, some fault⟩
    | .ok accepted =>
      let verdict :=
        if json then (runReport entry input accepted).pretty
        else if accepted then "accepted" else "rejected"
      return ⟨lines ++ [verdict], none⟩

def determinize (name : String) (json : Bool) : Outcome :=
  match Catalog.lookup name >>= fun entry => entry.determinize.map (entry, ·) with
  | .error fault => ⟨[], some fault⟩
  | .ok (entry, m) =>
    if json then ⟨[(dfaReport entry m).pretty], none⟩
    else
      ⟨("start: " ++ inspect m.start) :: ("accept: " ++ inspect m.accept) ::
        m.rules.map FiniteRule.arrow, none⟩

def Command.outcome? (bound : Nat) : Command → Option Outcome
  | .list => some ⟨listing, none⟩
  | .run machine input trace json => run? bound machine input trace json
  | .determinize machine json => some (CommandLine.determinize machine json)

def faultLine (fault : Fault) : String :=
  "Error: " ++ inspect fault

def versionLine : String :=
  "automata-cli 0.0.1"

def helpLines : List String :=
  ["Usage:",
    "  automata-cli list",
    "  automata-cli run --machine NAME [--input TEXT] [--trace] [--json]",
    "  automata-cli determinize --machine NAME [--json]"]

end TableMachines.CommandLine
