import TableMachines.Ordered

namespace TableMachines

inductive Direction where
  | left
  | right
  deriving DecidableEq

inductive HeadStart where
  | first
  | last
  deriving DecidableEq

/-- Both halves are stored with the cell nearest to the head first. -/
structure Tape (C : Type) where
  left : List C
  scanned : C
  right : List C
  blank : C
  deriving DecidableEq

instance : Ordered Direction :=
  Ordered.ofKey (fun d => decide (d = .right)) fun x y h => by
    cases x <;> cases y <;> simp_all

namespace Tape

variable {C : Type}

def leftCells (t : Tape C) : List C :=
  t.left.reverse

def write (a : C) (t : Tape C) : Tape C :=
  { t with scanned := a }

def moveLeft (t : Tape C) : Tape C :=
  match t.left with
  | [] => ⟨[], t.blank, t.scanned :: t.right, t.blank⟩
  | a :: l => ⟨l, a, t.scanned :: t.right, t.blank⟩

def moveRight (t : Tape C) : Tape C :=
  match t.right with
  | [] => ⟨t.scanned :: t.left, t.blank, [], t.blank⟩
  | a :: r => ⟨t.scanned :: t.left, a, r, t.blank⟩

def move : Direction → Tape C → Tape C
  | .left => moveLeft
  | .right => moveRight

def ofInput (input : List C) (blank : C) : HeadStart → Tape C
  | .first =>
    match input with
    | [] => ⟨[], blank, [], blank⟩
    | a :: r => ⟨[], a, r, blank⟩
  | .last =>
    match input.reverse with
    | [] => ⟨[], blank, [], blank⟩
    | a :: l => ⟨l, a, [], blank⟩

def cells (t : Tape C) : List C :=
  t.leftCells ++ t.scanned :: t.right

variable [Ordered C]

def trim (blank : C) (l : List C) : List C :=
  ((l.dropWhile (· = blank)).reverse.dropWhile (· = blank)).reverse

def contents (t : Tape C) : List C :=
  trim t.blank t.cells

instance : Ordered (Tape C) :=
  Ordered.ofKey (fun t => (t.leftCells, t.scanned, t.right, t.blank)) fun x y h => by
    cases x; cases y; simp_all [leftCells]

end Tape

end TableMachines
