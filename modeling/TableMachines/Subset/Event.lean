import TableMachines.Finite.Automata
import TableMachines.Finite.Event

/-!
Sets are discovered breadth first and each is expanded once, on the symbols in ascending order.
-/

namespace TableMachines

namespace Nfa

variable {S C : Type} [Ordered S] [Ordered C] (m : Nfa S C)

def successor (p : SortedSet S) (a : C) : SortedSet S :=
  m.closed (m.read p a)

def rulesFrom (p : SortedSet S) : List (FiniteRule (SortedSet S) C) :=
  m.alphabet.toList.map fun a => ⟨p, some a, m.successor p a⟩

def explore : Nat → List (SortedSet S) → Std.TreeSet (SortedSet S) → List (SortedSet S)
  | 0, _, _ => []
  | _ + 1, [], _ => []
  | n + 1, p :: queue, seen =>
    let (found, seen) := SortedSet.fresh ((m.rulesFrom p).map FiniteRule.target) seen
    p :: explore n (queue ++ found) seen

/-- Apart from the first set they consist of targets of rules. -/
def discovered (p : SortedSet S) : List (SortedSet S) :=
  m.explore (Nat.pow 2 m.rules.length + 1) [p] {p}

def discoveredRules (p : SortedSet S) : List (FiniteRule (SortedSet S) C) :=
  (m.discovered p).flatMap m.rulesFrom

def determinize : Dfa (SortedSet S) C where
  start := m.closed {m.start}
  accept := (SortedSet.ofList (m.discovered (m.closed {m.start}))).filter (·.meets m.accept)
  rules := m.discoveredRules (m.closed {m.start})

end Nfa

inductive SubsetEvent (S C : Type) [Ordered S] where
  | read (event : FiniteEvent S C)
  | complete (states accepting rules : Nat)

variable {S C : Type} [Ordered S]

instance [Inspect S] [Inspect C] : Event (SubsetEvent S C) where
  entry
    | .read event => Event.entry event
    | .complete states accepting rules =>
      ⟨.debug, "subset construction complete",
        [("states", inspect states), ("accepting", inspect accepting), ("rules", inspect rules)]⟩

variable [Ordered C]

def Nfa.determinizeNotes (m : Nfa S C) : List (SubsetEvent S C) :=
  let sets := m.discovered (m.closed {m.start})
  (sets.flatMap fun p => m.alphabet.toList.flatMap fun a => (m.note p a).map .read) ++
    [.complete sets.length m.determinize.accept.size m.determinize.rules.length]

end TableMachines
