import TableMachines.SortedSet.Basic

/-!
Adding the successors of a set round by round. Only members that the last round added are expanded,
so each member is expanded once.
-/

namespace TableMachines.SortedSet

variable {α : Type} [Ordered α]

def fresh : List α → Std.TreeSet α → List α × Std.TreeSet α
  | [], seen => ([], seen)
  | a :: l, seen =>
    if a ∈ seen then fresh l seen
    else
      let (found, seen) := fresh l (seen.insert a)
      (a :: found, seen)

theorem mem_fresh_snd {x : α} {l : List α} {seen : Std.TreeSet α} :
    x ∈ (fresh l seen).2 ↔ x ∈ l ∨ x ∈ seen := by
  induction l generalizing seen with
  | nil => simp [fresh]
  | cons a l ih =>
    unfold fresh
    split
    · grind
    · simp [ih]
      grind

theorem mem_fresh_fst {x : α} {l : List α} {seen : Std.TreeSet α} :
    x ∈ (fresh l seen).1 ↔ x ∈ l ∧ x ∉ seen := by
  induction l generalizing seen with
  | nil => simp [fresh]
  | cons a l ih =>
    unfold fresh
    split
    · grind
    · simp [ih]
      grind

variable (next : α → List α)

def expand (s : SortedSet α) : SortedSet α :=
  ofList (s.toList.flatMap next)

theorem mem_expand {y : α} {s : SortedSet α} : y ∈ s.expand next ↔ ∃ x ∈ s, y ∈ next x := by
  simp [expand, mem_ofList, mem_toList]

/-- At most `n` rounds from the members seen so far, of which those on the frontier wait for
expansion: the frontier that is left and the members seen in the end. -/
def grow : Nat → List α → Std.TreeSet α → List α × Std.TreeSet α
  | 0, frontier, seen => (frontier, seen)
  | _ + 1, [], seen => ([], seen)
  | n + 1, a :: l, seen =>
    let (frontier, seen) := fresh ((a :: l).flatMap next) seen
    grow n frontier seen

def saturate (n : Nat) (s : SortedSet α) : SortedSet α :=
  ofTree (grow next n s.toList (.ofList s.toList)).2

def saturate? (n : Nat) (s : SortedSet α) : Option (SortedSet α) :=
  let (frontier, seen) := grow next n s.toList (.ofList s.toList)
  if frontier.isEmpty then some (ofTree seen) else none

end TableMachines.SortedSet
