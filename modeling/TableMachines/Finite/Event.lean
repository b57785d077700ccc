import TableMachines.Finite.Automata
import TableMachines.Report

namespace TableMachines

inductive FiniteEvent (S C : Type) [Ordered S] where
  | moved (source : S) (symbol : C) (target : S)
  | stuck (state : S) (symbol : C)
  | advanced (symbol : C) (states : SortedSet S)

variable {S C : Type} [Ordered S]

instance [Inspect S] [Inspect C] : Event (FiniteEvent S C) where
  entry
    | .moved source symbol target =>
      ⟨.trace, "dfa step",
        [("from", inspect source), ("character", inspect symbol), ("to", inspect target)]⟩
    | .stuck state symbol =>
      ⟨.debug, "dfa stuck: no rule applies",
        [("state", inspect state), ("character", inspect symbol)]⟩
    | .advanced symbol states =>
      ⟨.trace, "nfa step", [("character", inspect symbol), ("states", inspect states)]⟩

variable [Ordered C]

def Dfa.note? (m : Dfa S C) (p : Control S) (a : C) : Option (List (FiniteEvent S C)) := do
  match ← m.settled? p with
  | .stuck => return []
  | .active s =>
    match m.rules.next? s (some a) with
    | some t => return [.moved s a t]
    | none => return [.stuck s a]

def Dfa.transcript? (m : Dfa S C) (p : Control S) (w : List C) :
    Option (List (FiniteEvent S C)) :=
  transcript Control.isStuck m.read? m.note? p w

def Nfa.note (m : Nfa S C) (p : SortedSet S) (a : C) : List (FiniteEvent S C) :=
  [.advanced a (m.read p a)]

def Nfa.transcript (m : Nfa S C) (p : SortedSet S) (w : List C) : List (FiniteEvent S C) :=
  Id.run (TableMachines.transcript SortedSet.isEmpty (fun p a => pure (m.read p a))
    (fun p a => pure (m.note p a)) p w)

end TableMachines
