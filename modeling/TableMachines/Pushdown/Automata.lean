import TableMachines.Control
import TableMachines.Pushdown.Rule
import TableMachines.Table

/-!
Free moves can grow the stack for ever, so every result is given under a bound on them and is
absent beyond it.
-/

namespace TableMachines

structure Dpda (S C : Type) [Ordered S] where
  start : S
  bottom : C
  accept : SortedSet S
  rules : Table (PushdownRule S C)

namespace Dpda

variable {S C : Type} [Ordered S] [Ordered C] (m : Dpda S C) (bound : Nat)

def startConfig : PushdownConfig S C :=
  ⟨.active m.start, ⟨[m.bottom]⟩⟩

def settled? (p : PushdownConfig S C) : Option (PushdownConfig S C) :=
  m.rules.settle? bound p

def read? (p : PushdownConfig S C) (a : C) : Option (PushdownConfig S C) := do
  let k ← m.settled? bound p
  match m.rules.next? k (some a) with
  | some k' => return k'
  | none => return k.jam

def accepting? (p : PushdownConfig S C) : Option Bool := do
  let k ← m.settled? bound p
  match k.control with
  | .active s => return decide (s ∈ m.accept)
  | .stuck => return false

def run? (p : PushdownConfig S C) (w : List C) : Option (PushdownConfig S C) :=
  feed PushdownConfig.isStuck (m.read? bound) p w

def accepts? (w : List C) : Option Bool := do
  m.accepting? bound (← m.run? bound m.startConfig w)

end Dpda

structure Npda (S C : Type) [Ordered S] where
  start : S
  bottom : C
  accept : SortedSet S
  rules : Table (PushdownRule S C)

namespace Npda

variable {S C : Type} [Ordered S] [Ordered C] (m : Npda S C) (bound : Nat)

def startConfig : PushdownConfig S C :=
  ⟨.active m.start, ⟨[m.bottom]⟩⟩

def closed? (p : SortedSet (PushdownConfig S C)) : Option (SortedSet (PushdownConfig S C)) :=
  m.rules.closure? bound p

def read? (p : SortedSet (PushdownConfig S C)) (a : C) :
    Option (SortedSet (PushdownConfig S C)) := do
  return m.rules.advance (some a) (← m.closed? bound p)

def accepting? (p : SortedSet (PushdownConfig S C)) : Option Bool := do
  let ks ← m.closed? bound p
  return (ks.toList.filterMap (·.control.state?)).any (· ∈ m.accept)

def run? (p : SortedSet (PushdownConfig S C)) (w : List C) :
    Option (SortedSet (PushdownConfig S C)) :=
  feed SortedSet.isEmpty (m.read? bound) p w

def accepts? (w : List C) : Option Bool := do
  m.accepting? bound (← m.run? bound {m.startConfig} w)

end Npda

end TableMachines
