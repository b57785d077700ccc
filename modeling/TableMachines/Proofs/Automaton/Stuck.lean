import TableMachines.Catalog.Tables
import TableMachines.Proofs.Automaton.Basic
import TableMachines.Proofs.Finite.Closed
import TableMachines.Proofs.Finite.Reading
import TableMachines.Proofs.Pushdown.Closed
import TableMachines.Proofs.Pushdown.Reading

namespace TableMachines

namespace Automaton

variable {M : Type → Type} [Monad M] {P C : Type} {A : Automaton M P C}

structure StaysStuck (A : Automaton M P C) : Prop where
  shown : ∀ p, A.isStuck p = true → A.shown p = pure p
  accepting : ∀ p, A.isStuck p = true → A.accepting p = pure false
  read : ∀ p a, A.isStuck p = true → A.read p a = pure p

structure SkipsRest (A : Automaton M P C) : Prop where
  unguarded : ∀ p w, A.run p w = w.foldlM A.read p
  append : ∀ p u v, A.run p (u ++ v) = A.run p u >>= (A.run · v)
  stuck : ∀ p u q, A.run p u = pure q → A.isStuck q = true → ∀ v,
    A.run p (u ++ v) = pure q ∧ A.shown q = pure q ∧ A.accepting q = pure false
  rejected : ∀ u q, A.run A.start u = pure q → A.isStuck q = true → ∀ v,
    A.accepts (u ++ v) = pure false

variable [LawfulMonad M]

theorem run_append (p : P) (u v : List C) : A.run p (u ++ v) = A.run p u >>= (A.run · v) := by
  simp only [run_eq, feed_append]

theorem run_append_of_isStuck {p q : P} {u : List C} (h : A.run p u = pure q)
    (hq : A.isStuck q = true) (v : List C) : A.run p (u ++ v) = pure q := by
  rw [run_append, h, pure_bind, run_of_isStuck hq]

theorem StaysStuck.skipsRest (h : A.StaysStuck) : A.SkipsRest where
  unguarded p w := by
    rw [run_eq, feed_eq_foldlM h.read]
  append := run_append
  stuck p u q hrun hq v := by
    refine ⟨?_, h.shown q hq, h.accepting q hq⟩
    exact run_append_of_isStuck hrun hq v
  rejected u q hrun hq v := by
    rw [accepts_eq, run_append_of_isStuck hrun hq, pure_bind, h.accepting q hq]

end Automaton

open PushdownConfig SortedSet

variable {S C : Type} [Ordered S] [Ordered C]

theorem Dfa.staysStuck (m : Dfa S C) : m.automaton.StaysStuck := by
  constructor
  · rintro (s | _) hp
    · cases hp
    · rfl
  · rintro (s | _) hp
    · cases hp
    · rfl
  · rintro (s | _) a hp
    · cases hp
    · rfl

theorem Nfa.staysStuck (m : Nfa S C) : m.automaton.StaysStuck := by
  constructor
  · intro p hp
    rw [eq_empty_of_isEmpty hp]
    exact closed_empty
  · intro p hp
    rw [eq_empty_of_isEmpty hp]
    change (m.closed ∅).meets m.accept = false
    rw [closed_empty]
    rfl
  · intro p a hp
    rw [eq_empty_of_isEmpty hp]
    exact read_empty a

theorem Dpda.staysStuck (m : Dpda S C) (bound : Nat) : (m.automaton bound).StaysStuck := by
  constructor
  · intro k hk
    exact settled?_of_isStuck hk
  · intro k hk
    refine (accepting?_of_settled? (settled?_of_isStuck hk)).trans ?_
    rw [state?_of_isStuck hk]
    rfl
  · intro k a hk
    exact read?_of_isStuck hk a

theorem Npda.staysStuck (m : Npda S C) (bound : Nat) : (m.automaton bound).StaysStuck := by
  constructor
  · intro p hp
    rw [eq_empty_of_isEmpty hp]
    exact closed?_empty bound
  · intro p hp
    rw [eq_empty_of_isEmpty hp]
    exact accepting?_eq (closed?_empty bound)
  · intro p a hp
    rw [eq_empty_of_isEmpty hp]
    exact read?_empty a

theorem stuck_automata_skip_rest :
    (∀ m : Dfa S C, m.automaton.SkipsRest) ∧
    (∀ m : Nfa S C, m.automaton.SkipsRest) ∧
    (∀ (m : Dpda S C) (bound : Nat), (m.automaton bound).SkipsRest) ∧
    ∀ (m : Npda S C) (bound : Nat), (m.automaton bound).SkipsRest := by
  refine ⟨fun m => ?_, fun m => ?_, fun m bound => ?_, fun m bound => ?_⟩
  · exact m.staysStuck.skipsRest
  · exact m.staysStuck.skipsRest
  · exact (m.staysStuck bound).skipsRest
  · exact (m.staysStuck bound).skipsRest

theorem stuck_automata_skip_rest_foreign :
    let m := Catalog.balancedParentheses
    let jammed : PushdownConfig UInt32 Char := ⟨.stuck, ⟨['$']⟩⟩
    (∀ v, Catalog.containsAb.accepts? ('c' :: v) = some false) ∧
    (∀ v, Catalog.thirdFromLastB.accepts ('c' :: v) = false) ∧
    (∀ v, m.run? 1 m.startConfig (')' :: v) = some jammed ∧
      m.settled? 1 jammed = some jammed ∧ m.accepting? 1 jammed = some false) ∧
    ∀ v, Catalog.evenPalindrome.accepts? 3 ('m' :: v) = some false := by
  intro m jammed
  obtain ⟨hdfa, hnfa, hdpda, hnpda⟩ := stuck_automata_skip_rest (S := UInt32) (C := Char)
  refine ⟨fun v => ?_, fun v => ?_, fun v => ?_, fun v => ?_⟩
  · exact (hdfa Catalog.containsAb).rejected ['c'] .stuck (by decide) rfl v
  · have hrun : Catalog.thirdFromLastB.run {1} ['c'] = ∅ := by decide
    exact (hnfa Catalog.thirdFromLastB).rejected ['c'] ∅ hrun rfl v
  · exact (hdpda m 1).stuck m.startConfig [')'] jammed (by decide) rfl v
  · exact (hnpda Catalog.evenPalindrome 3).rejected ['m'] ∅ (by decide) rfl v

end TableMachines
