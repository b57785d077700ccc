import TableMachines.Finite.Automata
import TableMachines.Pushdown.Automata
import TableMachines.Report
import TableMachines.SortedSet.Saturate
import TableMachines.Table
import TableMachines.Turing.Dtm

namespace TableMachines

inductive Problem (P S : Type) where
  | conflicts (pairs : List P)
  | freeCycle (states : List S)
  | unreachable (states : List S)
  deriving DecidableEq

namespace Problem

def described {R S : Type} [Inspect R] [Inspect S] : Problem (R × R) S → Problem String String
  | conflicts pairs => .conflicts (pairs.map fun (r, t) => inspect r ++ " / " ++ inspect t)
  | freeCycle states => .freeCycle (states.map inspect)
  | unreachable states => .unreachable (states.map inspect)

def fault : Problem String String → Fault
  | conflicts pairs =>
    .invalidTable ("Deterministic rulebook has conflicting rules: " ++ inspect pairs)
  | freeCycle states =>
    .invalidTable ("Free moves form a cycle through states: " ++ inspect states)
  | unreachable states => .invalidTable ("Unreachable accept states: " ++ inspect states)

end Problem

namespace Table

variable {R S C K : Type} [Rule R S C K]

def conflicts : Table R → List (R × R)
  | [] => []
  | r :: rules => (rules.filter (Rule.Overlaps r ·)).map (r, ·) ++ conflicts rules

def conflict? (rules : Table R) : Option (Problem (R × R) S) :=
  match conflicts rules with
  | [] => none
  | pairs => some (.conflicts pairs)

variable [Ordered S]

def freeSources (rules : Table R) : SortedSet S :=
  .ofList ((rules.filter (Rule.isFree ·)).map Rule.source)

def freeTargets (rules : Table R) (s : S) : List S :=
  (rules.filter fun r => Rule.isFree r && decide (Rule.source r = s)).map Rule.target

/-- The first argument bounds the depth. A state that the search has returned from is not entered again. -/
def searchFrom (rules : Table R) :
    Nat → List S → SortedSet S → S → Except (List S) (SortedSet S)
  | 0, _, done, _ => .ok done
  | n + 1, path, done, s => do
    let path := path ++ [s]
    let done ← (freeTargets rules s).foldlM (fun done t =>
      if t ∈ path then .error (path.dropWhile (· ≠ t))
      else if t ∈ done then .ok done
      else searchFrom rules n path done t) done
    return done.insert s

/-- A path repeats no state, so it is at most one longer than the table. -/
def freeCycle? (rules : Table R) : Option (List S) :=
  let search := (freeSources rules).toList.foldlM (fun done s =>
    if s ∈ done then .ok done
    else searchFrom rules (rules.length + 1) [] done s) (∅ : SortedSet S)
  match search with
  | .error cycle => some cycle
  | .ok _ => none

def freeCycleProblem? (rules : Table R) : Option (Problem (R × R) S) :=
  (freeCycle? rules).map .freeCycle

def targets (rules : Table R) (s : S) : List S :=
  (rules.filter (Rule.source · = s)).map Rule.target

/-- Every round but the last adds the target of some rule, so one round more than there are rules is
enough. -/
def reachable (rules : Table R) (s : S) : SortedSet S :=
  SortedSet.saturate (targets rules) (rules.length + 1) {s}

def unreachable (rules : Table R) (start : S) (accept : SortedSet S) : List S :=
  let seen := reachable rules start
  (accept.filter (· ∉ seen)).toList

def unreachableProblem? (rules : Table R) (start : S) (accept : SortedSet S) :
    Option (Problem (R × R) S) :=
  match unreachable rules start accept with
  | [] => none
  | states => some (.unreachable states)

end Table

variable {S C : Type} [Ordered S] [Ordered C]

def Dfa.problem? (m : Dfa S C) : Option (Problem (FiniteRule S C × FiniteRule S C) S) :=
  m.rules.conflict? <|> m.rules.freeCycleProblem? <|> m.rules.unreachableProblem? m.start m.accept

def Nfa.problem? (m : Nfa S C) : Option (Problem (FiniteRule S C × FiniteRule S C) S) :=
  m.rules.unreachableProblem? m.start m.accept

def Dpda.problem? (m : Dpda S C) : Option (Problem (PushdownRule S C × PushdownRule S C) S) :=
  m.rules.conflict? <|> m.rules.freeCycleProblem? <|> m.rules.unreachableProblem? m.start m.accept

def Npda.problem? (m : Npda S C) : Option (Problem (PushdownRule S C × PushdownRule S C) S) :=
  m.rules.unreachableProblem? m.start m.accept

def Dtm.problem? (m : Dtm S C) : Option (Problem (TuringRule S C × TuringRule S C) S) :=
  m.rules.conflict? <|> m.rules.unreachableProblem? m.start m.accept

end TableMachines
