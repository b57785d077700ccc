import TableMachines.Report
import TableMachines.Turing.Dtm
import TableMachines.Turing.Forms

namespace TableMachines

inductive TuringEvent (S C : Type) where
  | moved (index : Nat) (target : TuringConfig S C)
  | limitExceeded (limit : Nat)

variable {S C : Type}

instance [Inspect S] [Inspect C] : Event (TuringEvent S C) where
  entry
    | .moved index target =>
      ⟨.trace, "dtm step", [("step", inspect index), ("to", inspect target)]⟩
    | .limitExceeded limit => ⟨.debug, "dtm step limit exceeded", [("max_steps", inspect limit)]⟩

namespace Dtm

variable [Ordered S] [Ordered C] (m : Dtm S C)

def note (r : Run S C) : List (TuringEvent S C) :=
  match m.rules.nextTuring? r.config with
  | some k => [.moved r.steps k]
  | none => []

def advanceNotes : Nat → Run S C → List (TuringEvent S C)
  | 0, _ => []
  | n + 1, r => if m.halted r.config then [] else m.note r ++ advanceNotes n (m.step r).2

def runForNotes (limit : Nat) (r : Run S C) : List (TuringEvent S C) :=
  m.advanceNotes limit r ++
    if m.halted (m.advance limit r).config then [] else [.limitExceeded limit]

end Dtm

end TableMachines
