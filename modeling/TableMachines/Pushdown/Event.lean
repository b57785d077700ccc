import TableMachines.Pushdown.Automata
import TableMachines.Pushdown.Forms
import TableMachines.Report

namespace TableMachines

inductive PushdownEvent (S C : Type) where
  | moved (symbol : C) (target : PushdownConfig S C)
  | stuck (symbol : C) (source : PushdownConfig S C)
  | advanced (symbol : C) (count : Nat)

variable {S C : Type}

instance [Inspect S] [Inspect C] : Event (PushdownEvent S C) where
  entry
    | .moved symbol target =>
      ⟨.trace, "dpda step", [("character", inspect symbol), ("to", inspect target)]⟩
    | .stuck symbol source =>
      ⟨.debug, "dpda stuck: no rule applies",
        [("character", inspect symbol), ("from", inspect source)]⟩
    | .advanced symbol count =>
      ⟨.trace, "npda step", [("character", inspect symbol), ("configurations", inspect count)]⟩

variable [Ordered S] [Ordered C]

/-- A machine that is stuck already notes so again. -/
def Dpda.note? (m : Dpda S C) (bound : Nat) (p : PushdownConfig S C) (a : C) :
    Option (List (PushdownEvent S C)) := do
  let k ← m.settled? bound p
  match m.rules.next? k (some a) with
  | some k' => return [.moved a k']
  | none => return [.stuck a k]

def Dpda.transcript? (m : Dpda S C) (bound : Nat) (p : PushdownConfig S C) (w : List C) :
    Option (List (PushdownEvent S C)) :=
  transcript PushdownConfig.isStuck (m.read? bound) (m.note? bound) p w

def Npda.note? (m : Npda S C) (bound : Nat) (p : SortedSet (PushdownConfig S C)) (a : C) :
    Option (List (PushdownEvent S C)) := do
  return [.advanced a (← m.read? bound p a).size]

def Npda.transcript? (m : Npda S C) (bound : Nat) (p : SortedSet (PushdownConfig S C))
    (w : List C) : Option (List (PushdownEvent S C)) :=
  transcript SortedSet.isEmpty (m.read? bound) (m.note? bound) p w

end TableMachines
