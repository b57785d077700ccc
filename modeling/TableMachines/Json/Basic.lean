import TableMachines.Text.Inspect

/-!
Members of an object keep their order and repetitions, so that a reader of records can refuse a
repeated field.
-/

namespace TableMachines

/-- A string or key without value is a literal with half a surrogate pair, which denotes no text.
`real` stands for every number that is not written as an integer; minus zero counts among them. -/
inductive Json where
  | null
  | bool (b : Bool)
  | int (i : Int)
  | real
  | str (s : Option String)
  | arr (items : List Json)
  | obj (members : List (Option String × Json))

namespace Json

def text (s : String) : Json :=
  .str (some s)

def record (members : List (String × Json)) : Json :=
  .obj (members.map fun (name, value) => (some name, value))

def get? (name : String) : Json → Option Json
  | .obj members => (members.find? (·.1 == some name)).map (·.2)
  | _ => none

def hexDigit (n : Nat) : Char :=
  Nat.digitChar (n % 16)

def escape (c : Char) : List Char :=
  if c = '"' ∨ c = '\\' then ['\\', c]
  else if c = '\x08' then ['\\', 'b']
  else if c = '\x0c' then ['\\', 'f']
  else if c = '\n' then ['\\', 'n']
  else if c = '\r' then ['\\', 'r']
  else if c = '\t' then ['\\', 't']
  else if c.toNat < 32 then ['\\', 'u', '0', '0', hexDigit (c.toNat / 16), hexDigit c.toNat]
  else [c]

/-- A literal that denotes no text is written as the escape of a lone half. -/
def quoted : Option String → List Char
  | some s => '"' :: s.toList.flatMap escape ++ ['"']
  | none => ['"', '\\', 'u', 'd', '8', '0', '0', '"']

mutual

def chars : Json → List Char
  | .null => ['n', 'u', 'l', 'l']
  | .bool true => ['t', 'r', 'u', 'e']
  | .bool false => ['f', 'a', 'l', 's', 'e']
  | .int i => Text.intDigits i
  | .real => ['-', '0']
  | .str s => quoted s
  | .arr [] => ['[', ']']
  | .arr (j :: js) => '[' :: chars j ++ itemChars js
  | .obj [] => ['\x7b', '\x7d']
  | .obj ((k, j) :: ms) => '\x7b' :: quoted k ++ ':' :: chars j ++ memberChars ms

def itemChars : List Json → List Char
  | [] => [']']
  | j :: js => ',' :: chars j ++ itemChars js

def memberChars : List (Option String × Json) → List Char
  | [] => ['\x7d']
  | (k, j) :: ms => ',' :: quoted k ++ ':' :: chars j ++ memberChars ms

end

def compact (j : Json) : String :=
  String.ofList (chars j)

def newline (depth : Nat) : List Char :=
  '\n' :: List.replicate (2 * depth) ' '

mutual

def lines (depth : Nat) : Json → List Char
  | .arr (j :: js) => '[' :: newline (depth + 1) ++ lines (depth + 1) j ++ itemLines depth js
  | .obj ((k, j) :: ms) =>
    '\x7b' :: newline (depth + 1) ++ quoted k ++ ':' :: ' ' :: lines (depth + 1) j ++
      memberLines depth ms
  | j => chars j

def itemLines (depth : Nat) : List Json → List Char
  | [] => newline depth ++ [']']
  | j :: js => ',' :: newline (depth + 1) ++ lines (depth + 1) j ++ itemLines depth js

def memberLines (depth : Nat) : List (Option String × Json) → List Char
  | [] => newline depth ++ ['\x7d']
  | (k, j) :: ms =>
    ',' :: newline (depth + 1) ++ quoted k ++ ':' :: ' ' :: lines (depth + 1) j ++
      memberLines depth ms

end

def pretty (j : Json) : String :=
  String.ofList (lines 0 j)

end Json

end TableMachines
