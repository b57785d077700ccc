import TableMachines.SortedSet.Basic
import TableMachines.SortedSet.Saturate

namespace TableMachines

class Rule (R : Type) (S C K : outParam Type) where
  source : R → S
  target : R → S
  /-- The symbol consumed, absent for a free move. -/
  trigger : R → Option C
  Fits : R → K → Prop
  decidableFits : ∀ r k, Decidable (Fits r k)
  follow : R → K → K
  Overlaps : R → R → Prop
  decidableOverlaps : ∀ r t, Decidable (Overlaps r t)

def Collide {C : Type} : Option C → Option C → Prop
  | some a, some b => a = b
  | _, _ => True

instance {C : Type} [DecidableEq C] : (a b : Option C) → Decidable (Collide a b)
  | some a, some b => inferInstanceAs (Decidable (a = b))
  | some _, none => .isTrue trivial
  | none, _ => .isTrue (by cases ‹Option C› <;> trivial)

theorem collide_iff {C : Type} {a b : Option C} : Collide a b ↔ a = none ∨ b = none ∨ a = b := by
  cases a <;> cases b <;> simp [Collide]

namespace Rule

variable {R S C K : Type} [Rule R S C K]

instance (r : R) (k : K) : Decidable (Fits r k) :=
  decidableFits r k

instance (r t : R) : Decidable (Overlaps r t) :=
  decidableOverlaps r t

/-- A rule applies on exactly its own trigger; asking about no symbol asks for free moves. -/
def Applies (r : R) (k : K) (a : Option C) : Prop :=
  trigger r = a ∧ Fits r k

instance [DecidableEq C] (r : R) (k : K) (a : Option C) : Decidable (Applies r k a) :=
  inferInstanceAs (Decidable (_ ∧ _))

def isFree (r : R) : Bool :=
  (trigger r).isNone

end Rule

abbrev Table (R : Type) := List R

namespace Table

variable {R S C K : Type} [Ordered C] [Rule R S C K]

def alphabet (rules : Table R) : SortedSet C :=
  .ofList (rules.filterMap Rule.trigger)

theorem mem_alphabet {rules : Table R} {a : C} :
    a ∈ alphabet rules ↔ ∃ r ∈ rules, Rule.trigger r = some a := by
  simp [alphabet, SortedSet.mem_ofList]

def ruleFor? (rules : Table R) (k : K) (a : Option C) : Option R :=
  rules.find? (Rule.Applies · k a)

def next? (rules : Table R) (k : K) (a : Option C) : Option K :=
  (ruleFor? rules k a).map (Rule.follow · k)

def settle? (rules : Table R) : Nat → K → Option K
  | bound, k =>
    match next? rules k none with
    | none => some k
    | some k' =>
      match bound with
      | 0 => none
      | bound + 1 => settle? rules bound k'

theorem ruleFor?_eq_none_iff {rules : Table R} {k : K} {a : Option C} :
    ruleFor? rules k a = none ↔ ∀ r ∈ rules, ¬ Rule.Applies r k a := by
  simp [ruleFor?]

theorem next?_eq_none_iff {rules : Table R} {k : K} {a : Option C} :
    next? rules k a = none ↔ ∀ r ∈ rules, ¬ Rule.Applies r k a := by
  simp [next?, ruleFor?_eq_none_iff]

theorem settle?_of_none {rules : Table R} {k : K} (h : next? rules k none = none) (bound : Nat) :
    settle? rules bound k = some k := by
  unfold settle?
  simp [h]

theorem settle?_zero_of_some {rules : Table R} {k k' : K} (h : next? rules k none = some k') :
    settle? rules 0 k = none := by
  unfold settle?
  simp [h]

theorem settle?_succ_of_some {rules : Table R} {k k' : K} (h : next? rules k none = some k')
    (bound : Nat) : settle? rules (bound + 1) k = settle? rules bound k' := by
  rw [settle?]
  simp [h]

def rulesFor (rules : Table R) (k : K) (a : Option C) : List R :=
  rules.filter (Rule.Applies · k a)

def successors (rules : Table R) (a : Option C) (k : K) : List K :=
  (rulesFor rules k a).map (Rule.follow · k)

theorem mem_rulesFor {rules : Table R} {k : K} {a : Option C} {r : R} :
    r ∈ rulesFor rules k a ↔ r ∈ rules ∧ Rule.Applies r k a := by
  simp [rulesFor]

theorem mem_successors {rules : Table R} {k k' : K} {a : Option C} :
    k' ∈ successors rules a k ↔ ∃ r ∈ rules, Rule.Applies r k a ∧ Rule.follow r k = k' := by
  simp [successors, mem_rulesFor, and_assoc]

variable [Ordered K]

def advance (rules : Table R) (a : Option C) (ks : SortedSet K) : SortedSet K :=
  ks.expand (successors rules a)

def closure (rules : Table R) (rounds : Nat) (ks : SortedSet K) : SortedSet K :=
  ks.saturate (successors rules none) rounds

def closure? (rules : Table R) (rounds : Nat) (ks : SortedSet K) : Option (SortedSet K) :=
  ks.saturate? (successors rules none) rounds

theorem mem_advance {rules : Table R} {ks : SortedSet K} {k' : K} {a : Option C} :
    k' ∈ advance rules a ks ↔ ∃ k ∈ ks, ∃ r ∈ rules, Rule.Applies r k a ∧ Rule.follow r k = k' := by
  simp [advance, SortedSet.mem_expand, mem_successors]

end Table

end TableMachines
