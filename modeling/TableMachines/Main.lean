import TableMachines.CommandLine.Outcome

open TableMachines TableMachines.CommandLine in
/-- Exit codes: 0 for an answer, 1 for a fault, 2 for wrong arguments. -/
def main (args : List String) : IO UInt32 := do
  match command args with
  | .error .usage =>
    IO.eprintln "error: wrong arguments"
    return 2
  | .error .help =>
    helpLines.forM IO.println
    return 0
  | .error .version =>
    IO.println versionLine
    return 0
  | .ok command =>
    match command.outcome? freeMoveBound with
    | none =>
      IO.eprintln "error: free moves do not end"
      return 1
    | some outcome =>
      outcome.lines.forM IO.println
      match outcome.fault with
      | none => return 0
      | some fault =>
        IO.eprintln (faultLine fault)
        return 1
