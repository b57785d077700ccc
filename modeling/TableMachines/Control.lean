import TableMachines.Ordered

namespace TableMachines

inductive Control (S : Type) where
  | active (s : S)
  | stuck
  deriving DecidableEq

namespace Control

variable {S : Type}

def state? : Control S → Option S
  | .active s => some s
  | .stuck => none

def isStuck : Control S → Bool
  | .active _ => false
  | .stuck => true

@[simp] theorem state?_active (s : S) : (active s).state? = some s := rfl

@[simp] theorem state?_stuck : (stuck : Control S).state? = none := rfl

@[simp] theorem isStuck_active (s : S) : (active s).isStuck = false := rfl

@[simp] theorem isStuck_stuck : (stuck : Control S).isStuck = true := rfl

instance [Ordered S] : Ordered (Control S) :=
  Ordered.ofKey (fun c => (c.isStuck, c.state?)) fun x y h => by
    cases x <;> cases y <;> simp_all

end Control

section Feed

variable {P C E : Type} {m : Type → Type} [Monad m]

/-- Once a machine is stuck the rest of the word is skipped. -/
def feed (isStuck : P → Bool) (read : P → C → m P) : P → List C → m P
  | p, [] => pure p
  | p, a :: w =>
    if isStuck p then pure p
    else do feed isStuck read (← read p a) w

def transcript (isStuck : P → Bool) (read : P → C → m P) (note : P → C → m (List E)) :
    P → List C → m (List E)
  | _, [] => pure []
  | p, a :: w =>
    if isStuck p then pure []
    else do
      let here ← note p a
      let later ← transcript isStuck read note (← read p a) w
      return here ++ later

end Feed

end TableMachines
