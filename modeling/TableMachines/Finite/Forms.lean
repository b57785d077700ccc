import TableMachines.Control
import TableMachines.Finite.Automata
import TableMachines.Json.Serial
import TableMachines.Text.Inspect

namespace TableMachines

variable {S C : Type}

instance [Inspect S] : Inspect (Control S) where
  inspect
    | .active s => Text.taggedText "Active" (inspect s)
    | .stuck => "Stuck"

instance [Serial S] : Serial (Control S) where
  encode
    | .active s => .record [("Active", encode s)]
    | .stuck => .text "Stuck"
  decode? j :=
    match j.tag? with
    | some ("Active", some argument) => (decode? argument).map .active
    | some ("Stuck", none) => some .stuck
    | some ("Stuck", some .null) => some .stuck
    | _ => none

instance [Inspect S] [Inspect C] : Inspect (FiniteRule S C) where
  inspect r := Text.recordText "FaRule"
    [("state", inspect r.source), ("character", inspect r.trigger), ("next_state", inspect r.target)]

def FiniteRule.arrow [Inspect S] [Inspect C] (r : FiniteRule S C) : String :=
  let label := match r.trigger with
    | some a => inspect a
    | none => "ε"
  inspect r.source ++ " --" ++ label ++ "--> " ++ inspect r.target

instance [Serial S] [Serial C] : Serial (FiniteRule S C) where
  encode r := .record
    [("state", encode r.source), ("character", encode r.trigger), ("next_state", encode r.target)]
  decode? j := do
    match ← j.fields? ["state", "character", "next_state"] with
    | [source, trigger, target] =>
      return ⟨← Json.required? source, ← Json.optional? trigger, ← Json.required? target⟩
    | _ => none

end TableMachines
