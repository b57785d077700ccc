import TableMachines.Proofs.Automaton.Basic
import TableMachines.Proofs.Finite.Reading
import TableMachines.Proofs.Pushdown.Reading
import TableMachines.Proofs.Table.FirstMatch
import TableMachines.Proofs.Turing.TwoWay

namespace TableMachines

open Table

variable {S C : Type} [Ordered S] [Ordered C]

theorem Table.final_turing (rules : Table (TuringRule S C)) (k : TuringConfig S C) :
    Final rules k := by
  intro r _ happ
  cases happ.1

namespace Dfa

structure SameReadings (m m' : Dfa S C) : Prop where
  settled : ∀ p, m.settled? p = m'.settled? p
  accepting : ∀ p, m.accepting? p = m'.accepting? p
  read : ∀ p a, m.read? p a = m'.read? p a
  run : ∀ p w, m.run? p w = m'.run? p w
  accepts : ∀ w, m.accepts? w = m'.accepts? w

variable (m : Dfa S C) {rules : Table (FiniteRule S C)}

theorem settled?_of_sameMoves (h : SameMoves m.rules rules) (p : Control S) :
    m.settled? p = settled? { m with rules := rules } p := by
  cases p with
  | stuck => rfl
  | active s =>
    obtain ⟨bound, hbound, hbound'⟩ : ∃ bound,
        (freeSources m.rules).size ≤ bound ∧ (freeSources rules).size ≤ bound :=
      ⟨max (freeSources m.rules).size (freeSources rules).size, by omega, by omega⟩
    rw [settled?_active m hbound, h.settle?]
    exact (settled?_active { m with rules := rules } hbound' s).symm

theorem read?_of_sameMoves (h : SameMoves m.rules rules) (p : Control S) (a : C) :
    m.read? p a = read? { m with rules := rules } p a := by
  have hsettled := m.settled?_of_sameMoves h p
  unfold read?
  rw [← hsettled]
  cases hp : m.settled? p with
  | none => rfl
  | some q =>
    cases q with
    | stuck => rfl
    | active s =>
      have hnext := h.read s a (final_of_settled? hp)
      simp only [Option.bind_eq_bind, Option.bind_some, hnext]

theorem automaton_of_sameMoves (h : SameMoves m.rules rules) :
    m.automaton = automaton { m with rules := rules } := by
  have hsettled := m.settled?_of_sameMoves h
  apply Automaton.eq_of_read
  · rfl
  · rfl
  · exact funext hsettled
  · funext p
    change m.accepting? p = accepting? { m with rules := rules } p
    rw [accepting?, accepting?, hsettled]
  · funext p a
    exact m.read?_of_sameMoves h p a

theorem sameReadings_of_sameMoves (h : SameMoves m.rules rules) :
    m.SameReadings { m with rules := rules } := by
  have hautomaton := m.automaton_of_sameMoves h
  constructor
  · exact congrFun (congrArg Automaton.shown hautomaton)
  · exact congrFun (congrArg Automaton.accepting hautomaton)
  · exact congrFun₂ (congrArg Automaton.read hautomaton)
  · exact congrFun₂ (congrArg Automaton.run hautomaton)
  · exact congrFun (congrArg Automaton.accepts hautomaton)

end Dfa

namespace Dpda

structure SameReadings (m m' : Dpda S C) : Prop where
  settled : ∀ bound p, m.settled? bound p = m'.settled? bound p
  accepting : ∀ bound p, m.accepting? bound p = m'.accepting? bound p
  read : ∀ bound p a, m.read? bound p a = m'.read? bound p a
  run : ∀ bound p w, m.run? bound p w = m'.run? bound p w
  accepts : ∀ bound w, m.accepts? bound w = m'.accepts? bound w

variable (m : Dpda S C) {rules : Table (PushdownRule S C)}

theorem read?_of_sameMoves (h : SameMoves m.rules rules) (bound : Nat) (p : PushdownConfig S C)
    (a : C) : m.read? bound p a = read? { m with rules := rules } bound p a := by
  have hsettled : m.settled? bound p = settled? { m with rules := rules } bound p :=
    h.settle? bound p
  unfold read?
  rw [← hsettled]
  cases hp : m.settled? bound p with
  | none => rfl
  | some k =>
    have hnext := h.read k a (final_of_settle? hp)
    simp only [Option.bind_eq_bind, Option.bind_some, hnext]

theorem automaton_of_sameMoves (h : SameMoves m.rules rules) (bound : Nat) :
    m.automaton bound = automaton { m with rules := rules } bound := by
  have hsettled (p : PushdownConfig S C) :
      m.settled? bound p = settled? { m with rules := rules } bound p := h.settle? bound p
  apply Automaton.eq_of_read
  · rfl
  · rfl
  · exact funext hsettled
  · funext p
    change m.accepting? bound p = accepting? { m with rules := rules } bound p
    rw [accepting?, accepting?, hsettled]
  · funext p a
    exact m.read?_of_sameMoves h bound p a

theorem sameReadings_of_sameMoves (h : SameMoves m.rules rules) :
    m.SameReadings { m with rules := rules } := by
  have hautomaton := m.automaton_of_sameMoves h
  constructor
  · exact fun bound => congrFun (congrArg Automaton.shown (hautomaton bound))
  · exact fun bound => congrFun (congrArg Automaton.accepting (hautomaton bound))
  · exact fun bound => congrFun₂ (congrArg Automaton.read (hautomaton bound))
  · exact fun bound => congrFun₂ (congrArg Automaton.run (hautomaton bound))
  · exact fun bound => congrFun (congrArg Automaton.accepts (hautomaton bound))

end Dpda

namespace Dtm

structure SameSteps (m m' : Dtm S C) : Prop where
  step : ∀ r, m.step r = m'.step r
  afterSteps : ∀ n r, m.afterSteps n r = m'.afterSteps n r
  accepting : ∀ k, m.accepting k = m'.accepting k
  stuck : ∀ k, m.stuck k = m'.stuck k
  runFor : ∀ limit r, m.runFor limit r = m'.runFor limit r

variable (m : Dtm S C) {rules : Table (TuringRule S C)}

theorem sameSteps_of_sameMoves (h : SameMoves m.rules rules) :
    m.SameSteps { m with rules := rules } := by
  have hnext (k : TuringConfig S C) : m.rules.nextTuring? k = rules.nextTuring? k :=
    h.read k k.tape.scanned (final_turing m.rules k)
  have hstuck (k : TuringConfig S C) : m.stuck k = stuck { m with rules := rules } k := by
    unfold stuck
    rw [hnext]
    rfl
  have hstep : m.step = step { m with rules := rules } := by
    funext r
    unfold step
    rw [hnext]
    rfl
  have hhalted (k : TuringConfig S C) : m.halted k = halted { m with rules := rules } k := by
    unfold halted
    rw [hstuck]
    rfl
  have hadvance (n : Nat) (r : Run S C) : m.advance n r = advance { m with rules := rules } n r := by
    induction n generalizing r with
    | zero => rfl
    | succ n ih =>
      unfold advance
      rw [hhalted, hstep, ih]
  constructor
  · intro r
    rw [hstep]
  · intro n r
    unfold afterSteps
    rw [hstep]
  · intro k
    rfl
  · exact hstuck
  · intro limit r
    simp only [runFor, hadvance, hhalted]
    rfl

end Dtm

end TableMachines
