import TableMachines.Catalog.Tables
import TableMachines.Proofs.Automaton.Basic
import TableMachines.Proofs.Subset.Discovery
import TableMachines.Proofs.Table.AllMatches

namespace TableMachines

open SortedSet Table

variable {S C : Type} [Ordered S] [Ordered C]

namespace Nfa

variable {m m' : Nfa S C} {rules : Table (FiniteRule S C)}

theorem closed_of_sameMembers (h : SameMembers m.rules rules) (p : SortedSet S) :
    m.closed p = closed { m with rules := rules } p := by
  -- the numbers of rounds differ, so both are compared under more rounds than either takes
  let n := max (m.rules.length + 1) (rules.length + 1)
  have hm : m.rules.closure? n p = some (m.closed p) :=
    saturate?_of_le (m.closure?_eq p) (le_max_left _ _)
  have hrules : rules.closure? n p = some (closed { m with rules := rules } p) :=
    saturate?_of_le (closure?_eq { m with rules := rules } p) (le_max_right _ _)
  rw [h.sameSets.closure?] at hm
  exact Option.some.inj (hm.symm.trans hrules)

theorem read_of_sameMembers (h : SameMembers m.rules rules) (p : SortedSet S) (a : C) :
    m.read p a = read { m with rules := rules } p a := by
  rw [read, read, closed_of_sameMembers h, h.sameSets.advance]

theorem automaton_of_sameMembers (h : SameMembers m.rules rules) :
    m.automaton = automaton { m with rules := rules } := by
  apply Automaton.eq_of_read
  · rfl
  · rfl
  · exact funext (closed_of_sameMembers h)
  · funext p
    change m.accepting p = accepting { m with rules := rules } p
    rw [accepting, accepting, closed_of_sameMembers h]
  · funext p a
    exact read_of_sameMembers h p a

theorem rulesFrom_of_sameMembers (h : SameMembers m.rules rules) :
    m.rulesFrom = rulesFrom { m with rules := rules } := by
  funext p
  simp only [rulesFrom, successor, closed_of_sameMembers h, read_of_sameMembers h, Nfa.alphabet,
    h.alphabet]

theorem explore_congr (h : m.rulesFrom = m'.rulesFrom) (n : Nat)
    (queue : List (SortedSet S)) (seen : Std.TreeSet (SortedSet S)) :
    m.explore n queue seen = m'.explore n queue seen := by
  induction n generalizing queue seen with
  | zero => rfl
  | succ n ih =>
    cases queue with
    | nil => rfl
    | cons p queue => rw [explore_cons, explore_cons, expansion, expansion, h, ih]

theorem discovered_congr (h : m.rulesFrom = m'.rulesFrom) (p : SortedSet S) :
    m.discovered p = m'.discovered p := by
  let n := max (Nat.pow 2 m.rules.length + 1) (Nat.pow 2 m'.rules.length + 1)
  have hm : m.explore n [p] {p} = m.discovered p := explore_eq_discovered p (le_max_left _ _)
  have hm' : m'.explore n [p] {p} = m'.discovered p := explore_eq_discovered p (le_max_right _ _)
  rw [← hm, ← hm', explore_congr h]

theorem determinize_of_sameMembers (h : SameMembers m.rules rules) :
    m.determinize = determinize { m with rules := rules } := by
  have hrules := rulesFrom_of_sameMembers h
  have hdiscovered := discovered_congr hrules
  simp only [determinize, discoveredRules, closed_of_sameMembers h, hdiscovered, hrules]

end Nfa

theorem Npda.automaton_of_sameMembers {m : Npda S C} {rules : Table (PushdownRule S C)}
    (h : SameMembers m.rules rules) (bound : Nat) :
    m.automaton bound = automaton { m with rules := rules } bound := by
  have hclosed (p : SortedSet (PushdownConfig S C)) :
      m.closed? bound p = closed? { m with rules := rules } bound p := h.sameSets.closure? bound p
  apply Automaton.eq_of_read
  · rfl
  · rfl
  · exact funext hclosed
  · funext p
    change m.accepting? bound p = accepting? { m with rules := rules } bound p
    rw [accepting?, accepting?, hclosed]
  · funext p a
    change m.read? bound p a = read? { m with rules := rules } bound p a
    rw [read?, read?, hclosed]
    simp only [h.sameSets.advance]

theorem allMatches_depends_on_members :
    (∀ {R S C K : Type} [Ordered C] [Ordered K] [Rule R S C K] (rules rules' : Table R),
      SameMembers rules rules' → SameSets rules rules') ∧
    (∀ (m : Nfa S C) (rules : Table (FiniteRule S C)), SameMembers m.rules rules →
      m.automaton = Nfa.automaton { m with rules := rules } ∧
      m.determinize = Nfa.determinize { m with rules := rules }) ∧
    ∀ (m : Npda S C) (rules : Table (PushdownRule S C)), SameMembers m.rules rules →
      ∀ bound, m.automaton bound = Npda.automaton { m with rules := rules } bound := by
  refine ⟨fun rules rules' h => h.sameSets, fun m rules h => ⟨?_, ?_⟩, fun m rules h bound => ?_⟩
  · exact Nfa.automaton_of_sameMembers h
  · exact Nfa.determinize_of_sameMembers h
  · exact Npda.automaton_of_sameMembers h bound

theorem allMatches_depends_on_members_twice :
    let m := Catalog.abNfa
    let m' := Catalog.evenPalindrome
    SameSets m.rules (m.rules.reverse ++ m.rules) ∧
    m.automaton = Nfa.automaton { m with rules := m.rules.reverse ++ m.rules } ∧
    m.determinize = Nfa.determinize { m with rules := m.rules.reverse ++ m.rules } ∧
    ∀ bound, m'.automaton bound =
      Npda.automaton { m' with rules := m'.rules.reverse ++ m'.rules } bound := by
  intro m m'
  have htwice {R : Type} (rules : Table R) : SameMembers rules (rules.reverse ++ rules) := by
    intro r
    simp
  obtain ⟨htable, hnfa, hnpda⟩ := allMatches_depends_on_members (S := UInt32) (C := Char)
  obtain ⟨hautomaton, hdeterminize⟩ := hnfa m _ (htwice m.rules)
  refine ⟨?_, hautomaton, hdeterminize, ?_⟩
  · exact htable m.rules _ (htwice m.rules)
  · exact hnpda m' _ (htwice m'.rules)

end TableMachines
