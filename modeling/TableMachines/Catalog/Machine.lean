import TableMachines.Pushdown.Automata
import TableMachines.Subset.Event
import TableMachines.Turing.Dtm

namespace TableMachines

def blankSymbol : Char := '_'

def maxSteps : Nat := 10000

def freeMoveBound : Nat := Nat.pow 2 62

inductive Machine where
  | dfa (m : Dfa UInt32 Char)
  | subsetDfa (m : Dfa (SortedSet UInt32) Char)
  | nfa (m : Nfa UInt32 Char)
  | dpda (m : Dpda UInt32 Char)
  | npda (m : Npda UInt32 Char)
  | dtm (m : Dtm UInt32 Char) (head : HeadStart)

structure NamedMachine where
  name : String
  description : String
  machine : Machine

namespace Machine

def family : Machine → String
  | dfa _ | subsetDfa _ => "dfa"
  | nfa _ => "nfa"
  | dpda _ => "dpda"
  | npda _ => "npda"
  | dtm .. => "dtm"

/-- The answer is absent if `bound` does not exhaust the free moves, and a fault if a Turing machine
has not halted within its steps. -/
def accepts? (bound : Nat) (input : List Char) : Machine → Option (Except Fault Bool)
  | dfa m => (m.accepts? input).map .ok
  | subsetDfa m => (m.accepts? input).map .ok
  | nfa m => some (.ok (m.accepts input))
  | dpda m => (m.accepts? bound input).map .ok
  | npda m => (m.accepts? bound input).map .ok
  | dtm m head => some (m.accepts (.ofInput input blankSymbol head) maxSteps)

end Machine

def NamedMachine.determinize (n : NamedMachine) : Except Fault (Dfa (SortedSet UInt32) Char) :=
  match n.machine with
  | .nfa m => .ok m.determinize
  | machine => .error <| .unsupported <|
      n.name ++ " is a " ++ machine.family ++ ", only NFAs can be determinized"

end TableMachines
