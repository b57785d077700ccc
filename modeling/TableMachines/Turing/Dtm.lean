import TableMachines.Report
import TableMachines.SortedSet.Basic
import TableMachines.Table
import TableMachines.Turing.Tape

/-!
A machine halts in an accept state or where no rule applies, but a single step does not look at
the accept states.
-/

namespace TableMachines

structure TuringConfig (S C : Type) where
  state : S
  tape : Tape C
  deriving DecidableEq

structure TuringRule (S C : Type) where
  source : S
  scanned : C
  target : S
  write : C
  direction : Direction
  deriving DecidableEq

section Rules

variable {S C : Type} [Ordered S] [Ordered C]

instance : Ordered (TuringConfig S C) :=
  Ordered.ofKey (fun k => (k.state, k.tape)) fun x y h => by
    cases x; cases y; simp_all

namespace TuringRule

instance : Ordered (TuringRule S C) :=
  Ordered.ofKey (fun r => (r.source, r.scanned, r.target, r.write, r.direction)) fun x y h => by
    cases x; cases y; simp_all

/-- The symbol under the head counts as the symbol consumed, so no rule is a free move. -/
instance : Rule (TuringRule S C) S C (TuringConfig S C) where
  source := source
  target := target
  trigger r := some r.scanned
  Fits r k := r.source = k.state ∧ r.scanned = k.tape.scanned
  decidableFits _ _ := inferInstance
  follow r k := ⟨r.target, (k.tape.write r.write).move r.direction⟩
  Overlaps r t := r.source = t.source ∧ r.scanned = t.scanned
  decidableOverlaps _ _ := inferInstance

end TuringRule

namespace Table

def nextTuring? (rules : Table (TuringRule S C)) (k : TuringConfig S C) :
    Option (TuringConfig S C) :=
  rules.next? k (some k.tape.scanned)

end Table

end Rules

structure Dtm (S C : Type) [Ordered S] where
  start : S
  accept : SortedSet S
  rules : Table (TuringRule S C)

inductive Halt where
  | accepted
  | stuck
  deriving DecidableEq

inductive Step where
  | moved
  | halt (h : Halt)
  deriving DecidableEq

namespace Dtm

structure Run (S C : Type) where
  config : TuringConfig S C
  steps : Nat
  deriving DecidableEq

variable {S C : Type} [Ordered S] [Ordered C] (m : Dtm S C)

def startRun (tape : Tape C) : Run S C :=
  ⟨⟨m.start, tape⟩, 0⟩

def accepting (k : TuringConfig S C) : Bool :=
  k.state ∈ m.accept

def stuck (k : TuringConfig S C) : Bool :=
  !m.accepting k && (m.rules.nextTuring? k).isNone

def halted (k : TuringConfig S C) : Bool :=
  m.accepting k || m.stuck k

def verdict (k : TuringConfig S C) : Halt :=
  if m.accepting k then .accepted else .stuck

def step (r : Run S C) : Step × Run S C :=
  match m.rules.nextTuring? r.config with
  | some k => (.moved, ⟨k, r.steps + 1⟩)
  | none => (.halt (m.verdict r.config), r)

def advance : Nat → Run S C → Run S C
  | 0, r => r
  | n + 1, r => if m.halted r.config then r else advance n (m.step r).2

def runFor (limit : Nat) (r : Run S C) : Except Fault Halt × Run S C :=
  let r' := m.advance limit r
  (if m.halted r'.config then .ok (m.verdict r'.config) else .error (.stepLimitExceeded limit), r')

def run? (bound : Nat) (r : Run S C) : Option (Halt × Run S C) :=
  let r' := m.advance bound r
  if m.halted r'.config then some (m.verdict r'.config, r') else none

def accepts (tape : Tape C) (limit : Nat) : Except Fault Bool :=
  (m.runFor limit (m.startRun tape)).1.map (· == .accepted)

end Dtm

end TableMachines
