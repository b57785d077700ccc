import TableMachines.Control
import TableMachines.Table

/-!
Free moves are exhausted before each symbol and before the verdict. What is stored after a symbol
is not closed under them.
-/

namespace TableMachines

structure FiniteRule (S C : Type) where
  source : S
  trigger : Option C
  target : S
  deriving DecidableEq

namespace FiniteRule

variable {S C : Type} [Ordered S] [Ordered C]

instance : Ordered (FiniteRule S C) :=
  Ordered.ofKey (fun r => (r.source, r.trigger, r.target)) fun x y h => by
    cases x; cases y; simp_all

instance : Rule (FiniteRule S C) S C S where
  source := source
  target := target
  trigger := trigger
  Fits r s := r.source = s
  decidableFits _ _ := inferInstance
  follow r _ := r.target
  Overlaps r t := r.source = t.source ∧ Collide r.trigger t.trigger
  decidableOverlaps _ _ := inferInstance

end FiniteRule

structure Dfa (S C : Type) [Ordered S] where
  start : S
  accept : SortedSet S
  rules : Table (FiniteRule S C)

namespace Dfa

variable {S C : Type} [Ordered S] [Ordered C] (m : Dfa S C)

/-- A run of free moves longer than the table never ends, for it uses some rule twice. -/
def settled? : Control S → Option (Control S)
  | .active s => (m.rules.settle? m.rules.length s).map .active
  | .stuck => some .stuck

def read? (p : Control S) (a : C) : Option (Control S) := do
  match ← m.settled? p with
  | .stuck => return .stuck
  | .active s =>
    match m.rules.next? s (some a) with
    | some t => return .active t
    | none => return .stuck

def accepting? (p : Control S) : Option Bool := do
  match ← m.settled? p with
  | .active s => return decide (s ∈ m.accept)
  | .stuck => return false

def run? (p : Control S) (w : List C) : Option (Control S) :=
  feed Control.isStuck m.read? p w

def accepts? (w : List C) : Option Bool := do
  m.accepting? (← m.run? (.active m.start) w)

end Dfa

structure Nfa (S C : Type) [Ordered S] where
  start : S
  accept : SortedSet S
  rules : Table (FiniteRule S C)

namespace Nfa

variable {S C : Type} [Ordered S] [Ordered C] (m : Nfa S C)

/-- Every round but the last adds the target of some rule, so one round more than there are rules is
enough. -/
def closed (p : SortedSet S) : SortedSet S :=
  m.rules.closure (m.rules.length + 1) p

def read (p : SortedSet S) (a : C) : SortedSet S :=
  m.rules.advance (some a) (m.closed p)

def accepting (p : SortedSet S) : Bool :=
  (m.closed p).meets m.accept

def run (p : SortedSet S) (w : List C) : SortedSet S :=
  Id.run (feed SortedSet.isEmpty (fun p a => pure (m.read p a)) p w)

def accepts (w : List C) : Bool :=
  m.accepting (m.run {m.start} w)

def alphabet : SortedSet C :=
  m.rules.alphabet

end Nfa

end TableMachines
