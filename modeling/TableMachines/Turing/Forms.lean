import TableMachines.Json.Serial
import TableMachines.Text.Inspect
import TableMachines.Turing.Dtm

/-!
The left half of a tape is shown in tape order, its cell nearest to the head last.
-/

namespace TableMachines

variable {S C : Type}

def Direction.name : Direction → String
  | .left => "Left"
  | .right => "Right"

def HeadStart.name : HeadStart → String
  | .first => "First"
  | .last => "Last"

def Halt.name : Halt → String
  | .accepted => "Accepted"
  | .stuck => "Stuck"

instance : Inspect Direction := ⟨Direction.name⟩

instance : Inspect HeadStart := ⟨HeadStart.name⟩

instance : Inspect Halt := ⟨Halt.name⟩

instance : Serial Direction where
  encode d := .text d.name
  decode? j :=
    match j.unitTag? with
    | some "Left" => some .left
    | some "Right" => some .right
    | _ => none

instance : Serial HeadStart where
  encode h := .text h.name
  decode? j :=
    match j.unitTag? with
    | some "First" => some .first
    | some "Last" => some .last
    | _ => none

instance : Serial Halt where
  encode h := .text h.name
  decode? j :=
    match j.unitTag? with
    | some "Accepted" => some .accepted
    | some "Stuck" => some .stuck
    | _ => none

instance [Inspect C] : Inspect (Tape C) where
  inspect t := Text.recordText "Tape"
    [("left", inspect t.leftCells), ("middle", inspect t.scanned), ("right", inspect t.right),
      ("blank", inspect t.blank)]

instance [Plain C] : Plain (Tape C) where
  plain t :=
    plainAll t.leftCells ++ "(" ++ plain t.scanned ++ ")" ++ plainAll t.right

instance [Serial C] : Serial (Tape C) where
  encode t := .record
    [("left", encode t.leftCells), ("middle", encode t.scanned), ("right", encode t.right),
      ("blank", encode t.blank)]
  decode? j := do
    match ← j.fields? ["left", "middle", "right", "blank"] with
    | [left, middle, right, blank] =>
      let left : List C ← Json.required? left
      return ⟨left.reverse, ← Json.required? middle, ← Json.required? right,
        ← Json.required? blank⟩
    | _ => none

instance [Inspect S] [Inspect C] : Inspect (TuringConfig S C) where
  inspect k := Text.recordText "TmConfiguration"
    [("state", inspect k.state), ("tape", inspect k.tape)]

instance [Inspect S] [Plain C] : Plain (TuringConfig S C) where
  plain k := inspect k.state ++ " " ++ plain k.tape

instance [Inspect S] [Inspect C] : Inspect (TuringRule S C) where
  inspect r := Text.recordText "TmRule"
    [("state", inspect r.source), ("character", inspect r.scanned),
      ("next_state", inspect r.target), ("write_character", inspect r.write),
      ("direction", inspect r.direction)]

instance [Serial S] [Serial C] : Serial (TuringRule S C) where
  encode r := .record
    [("state", encode r.source), ("character", encode r.scanned), ("next_state", encode r.target),
      ("write_character", encode r.write), ("direction", encode r.direction)]
  decode? j := do
    match ← j.fields? ["state", "character", "next_state", "write_character", "direction"] with
    | [source, scanned, target, write, direction] =>
      return ⟨← Json.required? source, ← Json.required? scanned, ← Json.required? target,
        ← Json.required? write, ← Json.required? direction⟩
    | _ => none

end TableMachines
