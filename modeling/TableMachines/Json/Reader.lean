import TableMachines.Json.Basic

/-!
Strict reading of JSON. Half a surrogate pair is no fault of the text, so that a member which nobody
asks for may hold one.
-/

namespace TableMachines.Json

def isBlank (c : Char) : Bool :=
  c == ' ' || c == '\t' || c == '\n' || c == '\r'

def skipBlanks (cs : List Char) : List Char :=
  cs.dropWhile isBlank

def hexValue? (c : Char) : Option Nat :=
  if '0' ≤ c ∧ c ≤ '9' then some (c.toNat - '0'.toNat)
  else if 'a' ≤ c ∧ c ≤ 'f' then some (c.toNat - 'a'.toNat + 10)
  else if 'A' ≤ c ∧ c ≤ 'F' then some (c.toNat - 'A'.toNat + 10)
  else none

def unit? (a b c d : Char) : Option Nat := do
  let a ← hexValue? a
  let b ← hexValue? b
  let c ← hexValue? c
  let d ← hexValue? d
  return ((a * 16 + b) * 16 + c) * 16 + d

def unescape? (c : Char) : Option Char :=
  if c = '"' ∨ c = '\\' ∨ c = '/' then some c
  else if c = 'b' then some '\x08'
  else if c = 'f' then some '\x0c'
  else if c = 'n' then some '\n'
  else if c = 'r' then some '\r'
  else if c = 't' then some '\t'
  else none

inductive Piece where
  | char (c : Char)
  | high (unit : Nat)
  | low (unit : Nat)

def Piece.ofUnit (n : Nat) : Piece :=
  if 0xD800 ≤ n ∧ n < 0xDC00 then .high n
  else if 0xDC00 ≤ n ∧ n < 0xE000 then .low n
  else .char (Char.ofNat n)

def Piece.text? : List Piece → Option (List Char)
  | [] => some []
  | .char c :: ps => (c :: ·) <$> text? ps
  | .high h :: .low l :: ps =>
    (Char.ofNat (0x10000 + (h - 0xD800) * 0x400 + (l - 0xDC00)) :: ·) <$> text? ps
  | _ :: _ => none

def pieces? : List Char → Option (List Piece × List Char)
  | [] => none
  | '"' :: cs => some ([], cs)
  | '\\' :: 'u' :: a :: b :: c :: d :: cs => do
    let n ← unit? a b c d
    let (ps, rest) ← pieces? cs
    return (.ofUnit n :: ps, rest)
  | '\\' :: e :: cs => do
    let c ← unescape? e
    let (ps, rest) ← pieces? cs
    return (.char c :: ps, rest)
  | c :: cs =>
    if c.toNat < 32 ∨ c = '\\' then none
    else do
      let (ps, rest) ← pieces? cs
      return (.char c :: ps, rest)

def literal? (cs : List Char) : Option (Option String × List Char) := do
  let (ps, rest) ← pieces? cs
  return ((Piece.text? ps).map String.ofList, rest)

def digitsValue (ds : List Char) : Nat :=
  ds.foldl (fun n d => 10 * n + (d.toNat - '0'.toNat)) 0

def skipSign : List Char → List Char
  | c :: cs => if c = '+' ∨ c = '-' then cs else c :: cs
  | [] => []

def digits? (cs : List Char) : Option (List Char × List Char) :=
  match cs.takeWhile Char.isDigit with
  | [] => none
  | ds => some (ds, cs.dropWhile Char.isDigit)

def fraction? : List Char → Option (Bool × List Char)
  | '.' :: cs => (digits? cs).map (true, ·.2)
  | cs => some (false, cs)

def exponent? : List Char → Option (Bool × List Char)
  | c :: cs =>
    if c = 'e' ∨ c = 'E' then (digits? (skipSign cs)).map (true, ·.2) else some (false, c :: cs)
  | [] => some (false, [])

def number? (negative : Bool) (cs : List Char) : Option (Json × List Char) := do
  let (ds, rest) ← digits? cs
  if ds.head? = some '0' ∧ ds.length ≠ 1 then none
  else do
    let (fractional, rest) ← fraction? rest
    let (scaled, rest) ← exponent? rest
    if fractional || scaled then return (.real, rest)
    else if negative then
      return (if digitsValue ds = 0 then .real else .int (-digitsValue ds), rest)
    else return (.int (digitsValue ds), rest)

def dropInitial? : List Char → List Char → Option (List Char)
  | [], cs => some cs
  | _ :: _, [] => none
  | w :: ws, c :: cs => if w = c then dropInitial? ws cs else none

def word? (w : List Char) (j : Json) (cs : List Char) : Option (Json × List Char) :=
  (dropInitial? w cs).map (j, ·)

mutual

/-- The first argument bounds the nesting and the number of items. -/
def value? : Nat → List Char → Option (Json × List Char)
  | 0, _ => none
  | n + 1, cs =>
    match skipBlanks cs with
    | '[' :: r =>
      match skipBlanks r with
      | ']' :: rest => some (.arr [], rest)
      | r => do
        let (js, rest) ← items? n r
        return (.arr js, rest)
    | '\x7b' :: r =>
      match skipBlanks r with
      | '\x7d' :: rest => some (.obj [], rest)
      | r => do
        let (ms, rest) ← members? n r
        return (.obj ms, rest)
    | '"' :: r => do
      let (s, rest) ← literal? r
      return (.str s, rest)
    | '-' :: r => number? true r
    | 'n' :: r => word? ['u', 'l', 'l'] .null r
    | 't' :: r => word? ['r', 'u', 'e'] (.bool true) r
    | 'f' :: r => word? ['a', 'l', 's', 'e'] (.bool false) r
    | r => number? false r

def items? : Nat → List Char → Option (List Json × List Char)
  | 0, _ => none
  | n + 1, cs => do
    let (j, r) ← value? n cs
    match skipBlanks r with
    | ']' :: rest => some ([j], rest)
    | ',' :: r => do
      let (js, rest) ← items? n r
      return (j :: js, rest)
    | _ => none

def members? : Nat → List Char → Option (List (Option String × Json) × List Char)
  | 0, _ => none
  | n + 1, cs =>
    match skipBlanks cs with
    | '"' :: r => do
      let (k, r) ← literal? r
      match skipBlanks r with
      | ':' :: r => do
        let (j, r) ← value? n r
        match skipBlanks r with
        | '\x7d' :: rest => some ([(k, j)], rest)
        | ',' :: r => do
          let (ms, rest) ← members? n r
          return ((k, j) :: ms, rest)
        | _ => none
      | _ => none
    | _ => none

end

def ofChars? (cs : List Char) : Option Json :=
  match value? (cs.length + 1) cs with
  | some (j, rest) => if (skipBlanks rest).isEmpty then some j else none
  | none => none

def read? (s : String) : Option Json :=
  ofChars? s.toList

end TableMachines.Json
