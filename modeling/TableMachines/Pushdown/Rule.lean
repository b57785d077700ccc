import TableMachines.Control
import TableMachines.Ordered
import TableMachines.Table

namespace TableMachines

structure Stack (C : Type) where
  symbols : List C
  deriving DecidableEq

namespace Stack

variable {C : Type}

def push (a : C) (s : Stack C) : Stack C :=
  ⟨a :: s.symbols⟩

def pop (s : Stack C) : Stack C :=
  ⟨s.symbols.tail⟩

def top? (s : Stack C) : Option C :=
  s.symbols.head?

def pushAll (l : List C) (s : Stack C) : Stack C :=
  l.foldr push s

def size (s : Stack C) : Nat :=
  s.symbols.length

def isEmpty (s : Stack C) : Bool :=
  s.symbols.isEmpty

def bottomFirst (s : Stack C) : List C :=
  s.symbols.reverse

@[simp] theorem symbols_push (a : C) (s : Stack C) : (s.push a).symbols = a :: s.symbols := rfl

@[simp] theorem symbols_pop (s : Stack C) : s.pop.symbols = s.symbols.tail := rfl

@[simp] theorem symbols_pushAll (l : List C) (s : Stack C) :
    (s.pushAll l).symbols = l ++ s.symbols := by
  induction l with
  | nil => rfl
  | cons a l ih => exact congrArg (a :: ·) ih

theorem bottomFirst_injective {s t : Stack C} (h : s.bottomFirst = t.bottomFirst) : s = t := by
  cases s
  cases t
  exact congrArg mk (List.reverse_inj.1 h)

/-- Stacks are compared from the bottom up. -/
instance [Ordered C] : Ordered (Stack C) :=
  Ordered.ofKey bottomFirst fun _ _ => bottomFirst_injective

end Stack

structure PushdownConfig (S C : Type) where
  control : Control S
  stack : Stack C
  deriving DecidableEq

/-- A move that replaces the top symbol by others, the first of them on top. -/
structure PushdownRule (S C : Type) where
  source : S
  trigger : Option C
  target : S
  pop : C
  push : List C
  deriving DecidableEq

namespace PushdownConfig

variable {S C : Type}

def jam (k : PushdownConfig S C) : PushdownConfig S C :=
  { k with control := .stuck }

def isStuck (k : PushdownConfig S C) : Bool :=
  k.control.isStuck

instance [Ordered S] [Ordered C] : Ordered (PushdownConfig S C) :=
  Ordered.ofKey (fun k => (k.control, k.stack)) fun x y h => by
    cases x; cases y; simp_all

end PushdownConfig

namespace PushdownRule

variable {S C : Type} [Ordered S] [Ordered C]

instance : Ordered (PushdownRule S C) :=
  Ordered.ofKey (fun r => (r.source, r.trigger, r.target, r.pop, r.push)) fun x y h => by
    cases x; cases y; simp_all

instance : Rule (PushdownRule S C) S C (PushdownConfig S C) where
  source := source
  target := target
  trigger := trigger
  Fits r k := k.control = .active r.source ∧ k.stack.top? = some r.pop
  decidableFits _ _ := inferInstance
  follow r k := ⟨.active r.target, k.stack.pop.pushAll r.push⟩
  Overlaps r t := r.source = t.source ∧ r.pop = t.pop ∧ Collide r.trigger t.trigger
  decidableOverlaps _ _ := inferInstance

end PushdownRule

end TableMachines
