import TableMachines.SortedSet.Basic
import TableMachines.Text.Unprintable

namespace TableMachines

class Inspect (α : Type) where
  inspect : α → String

export Inspect (inspect)

namespace Text

def natDigits (n : Nat) : List Char :=
  Nat.toDigits 10 n

def intDigits (i : Int) : List Char :=
  if i < 0 then '-' :: natDigits i.natAbs else natDigits i.natAbs

def natText (n : Nat) : String :=
  String.ofList (natDigits n)

def intText (i : Int) : String :=
  String.ofList (intDigits i)

def hexText (n : Nat) : String :=
  String.ofList (Nat.toDigits 16 n)

def escaped (quote c : Char) : String :=
  if c = '\x00' then "\\0"
  else if c = '\t' then "\\t"
  else if c = '\r' then "\\r"
  else if c = '\n' then "\\n"
  else if c = '\\' ∨ c = quote then String.ofList ['\\', c]
  else if isUnprintable c then "\\u\x7b" ++ hexText c.toNat ++ "\x7d"
  else String.singleton c

def listText (items : List String) : String :=
  "[" ++ ", ".intercalate items ++ "]"

def setText (items : List String) : String :=
  "\x7b" ++ ", ".intercalate items ++ "\x7d"

def taggedText (name argument : String) : String :=
  name ++ "(" ++ argument ++ ")"

def recordText (name : String) (fields : List (String × String)) : String :=
  name ++ " \x7b " ++ ", ".intercalate (fields.map fun (field, value) => field ++ ": " ++ value) ++ " \x7d"

end Text

section Inspect

open Text

variable {α : Type} [Inspect α]

instance : Inspect Nat := ⟨natText⟩

instance : Inspect UInt32 := ⟨fun n => natText n.toNat⟩

instance : Inspect Int64 := ⟨fun i => intText i.toInt⟩

instance : Inspect Char := ⟨fun c => "'" ++ escaped '\'' c ++ "'"⟩

instance : Inspect String :=
  ⟨fun s => "\"" ++ String.join (s.toList.map (escaped '"')) ++ "\""⟩

instance : Inspect (Option α) where
  inspect
    | none => "None"
    | some a => taggedText "Some" (inspect a)

instance : Inspect (List α) := ⟨fun l => listText (l.map inspect)⟩

instance [Ordered α] : Inspect (SortedSet α) := ⟨fun s => setText (s.toList.map inspect)⟩

end Inspect

class Plain (α : Type) where
  plain : α → String

export Plain (plain)

instance : Plain UInt32 := ⟨fun n => Text.natText n.toNat⟩

instance : Plain Int64 := ⟨fun i => Text.intText i.toInt⟩

instance : Plain Char := ⟨String.singleton⟩

instance : Plain String := ⟨id⟩

def plainAll {α : Type} [Plain α] (l : List α) : String :=
  l.foldl (fun s a => s ++ plain a) ""

end TableMachines
