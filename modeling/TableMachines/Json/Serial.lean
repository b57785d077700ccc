import TableMachines.Json.Basic
import TableMachines.Json.Reader
import TableMachines.SortedSet.Basic

namespace TableMachines

class Serial (α : Type) where
  encode : α → Json
  decode? : Json → Option α

export Serial (encode decode?)

namespace Json

/-- A field given twice is refused, and so is an object with a key that denotes no text. -/
def fields? (names : List String) : Json → Option (List (Option Json))
  | .arr items => if items.length = names.length then some (items.map some) else none
  | .obj members =>
    if members.all (·.1.isSome) then
      names.mapM fun name =>
        match members.filter (·.1 == some name) with
        | [] => some none
        | [(_, value)] => some (some value)
        | _ => none
    else none
  | _ => none

def tag? : Json → Option (String × Option Json)
  | .str (some name) => some (name, none)
  | .obj [(some name, value)] => some (name, some value)
  | _ => none

def unitTag? (j : Json) : Option String :=
  match j.tag? with
  | some (name, none) => some name
  | some (name, some .null) => some name
  | _ => none

def required? {α : Type} [Serial α] : Option Json → Option α
  | some j => decode? j
  | none => none

def optional? {α : Type} [Serial α] : Option Json → Option (Option α)
  | none | some .null => some none
  | some j => (decode? j).map some

end Json

section Instances

variable {α : Type} [Serial α]

instance : Serial UInt32 where
  encode n := .int n.toNat
  decode?
    | .int i => if 0 ≤ i ∧ i < UInt32.size then some (UInt32.ofNat i.toNat) else none
    | _ => none

instance : Serial Int64 where
  encode i := .int i.toInt
  decode?
    | .int i => if Int64.minValue.toInt ≤ i ∧ i ≤ Int64.maxValue.toInt then some (Int64.ofInt i) else none
    | _ => none

instance : Serial Char where
  encode c := .text (String.singleton c)
  decode?
    | .str (some s) =>
      match s.toList with
      | [c] => some c
      | _ => none
    | _ => none

instance : Serial String where
  encode := .text
  decode?
    | .str s => s
    | _ => none

instance : Serial (List α) where
  encode l := .arr (l.map encode)
  decode?
    | .arr items => items.mapM decode?
    | _ => none

instance : Serial (Option α) where
  encode
    | none => .null
    | some a => encode a
  decode? j := Json.optional? (some j)

instance [Ordered α] : Serial (SortedSet α) where
  encode s := encode s.toList
  decode? j := (decode? j).map SortedSet.ofList

end Instances

namespace Serial

variable {α : Type} [Serial α]

def write (a : α) : String :=
  (encode a).compact

def read? (s : String) : Option α := do
  decode? (← Json.read? s)

end Serial

end TableMachines
