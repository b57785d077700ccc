import TableMachines.Finite.Forms
import TableMachines.Pushdown.Rule
import TableMachines.Text.Inspect

/-!
Diagnosis shows a stack from the bottom up, all other forms show it from the top down.
-/

namespace TableMachines

variable {S C : Type}

instance [Inspect C] : Inspect (Stack C) where
  inspect s := Text.recordText "Stack" [("contents", inspect s.bottomFirst)]

instance [Plain C] : Plain (Stack C) where
  plain s :=
    match s.symbols with
    | [] => "()"
    | a :: l => "(" ++ plain a ++ ")" ++ plainAll l

instance [Serial C] : Serial (Stack C) where
  encode s := .record [("contents", encode s.symbols)]
  decode? j := do
    match ← j.fields? ["contents"] with
    | [symbols] => return ⟨← Json.required? symbols⟩
    | _ => none

instance [Inspect S] [Inspect C] : Inspect (PushdownConfig S C) where
  inspect k := Text.recordText "PdaConfiguration"
    [("state", inspect k.control), ("stack", inspect k.stack)]

instance [Inspect S] [Plain C] : Plain (PushdownConfig S C) where
  plain k :=
    match k.control with
    | .active s => inspect s ++ " " ++ plain k.stack
    | .stuck => "stuck " ++ plain k.stack

instance [Inspect S] [Inspect C] : Inspect (PushdownRule S C) where
  inspect r := Text.recordText "PdaRule"
    [("state", inspect r.source), ("character", inspect r.trigger),
      ("next_state", inspect r.target), ("pop_character", inspect r.pop),
      ("push_characters", inspect r.push)]

instance [Serial S] [Serial C] : Serial (PushdownRule S C) where
  encode r := .record
    [("state", encode r.source), ("character", encode r.trigger), ("next_state", encode r.target),
      ("pop_character", encode r.pop), ("push_characters", encode r.push)]
  decode? j := do
    match ← j.fields? ["state", "character", "next_state", "pop_character", "push_characters"] with
    | [source, trigger, target, pop, push] =>
      return ⟨← Json.required? source, ← Json.optional? trigger, ← Json.required? target,
        ← Json.required? pop, ← Json.required? push⟩
    | _ => none

end TableMachines
