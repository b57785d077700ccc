import TableMachines.Control
import TableMachines.Finite.Automata
import TableMachines.Pushdown.Automata

namespace TableMachines

section Feed

variable {P C : Type} {m : Type → Type} [Monad m] {isStuck : P → Bool} {read : P → C → m P}

theorem feed_of_stuck {p : P} (h : isStuck p = true) (w : List C) :
    feed isStuck read p w = pure p := by
  cases w with
  | nil => rfl
  | cons a w => simp only [feed, h, if_true]

theorem feed_eq_foldlM [LawfulMonad m] (h : ∀ p a, isStuck p = true → read p a = pure p) (p : P)
    (w : List C) : feed isStuck read p w = w.foldlM read p := by
  induction w generalizing p with
  | nil => rfl
  | cons a w ih =>
    rw [List.foldlM_cons]
    by_cases hp : isStuck p = true
    · rw [feed_of_stuck hp, h p a hp, pure_bind, ← ih p, feed_of_stuck hp]
    · simp only [feed, if_neg hp, ih]

theorem feed_append [LawfulMonad m] (p : P) (u v : List C) :
    feed isStuck read p (u ++ v) = feed isStuck read p u >>= (feed isStuck read · v) := by
  induction u generalizing p with
  | nil =>
    rw [List.nil_append, feed, pure_bind]
  | cons a u ih =>
    by_cases hp : isStuck p = true
    · simp only [feed_of_stuck hp, pure_bind]
    · simp only [List.cons_append, feed, if_neg hp, bind_assoc, ih]

theorem of_feed {read : P → C → Option P} {good : P → Prop}
    (hread : ∀ p a q, good p → read p a = some q → good q) {p q : P} {w : List C} (hp : good p)
    (h : feed isStuck read p w = some q) : good q := by
  induction w generalizing p with
  | nil =>
    cases h
    exact hp
  | cons a w ih =>
    unfold feed at h
    split at h
    · cases h
      exact hp
    · obtain ⟨p', hp', h⟩ := Option.bind_eq_some_iff.1 h
      exact ih (hread p a p' hp hp') h

end Feed

/-- Answers are under a monad because free moves may never end. -/
structure Automaton (M : Type → Type) [Monad M] (P C : Type) where
  start : P
  isStuck : P → Bool
  shown : P → M P
  accepting : P → M Bool
  read : P → C → M P
  run : P → List C → M P
  accepts : List C → M Bool
  run_eq : ∀ p w, run p w = feed isStuck read p w
  accepts_eq : ∀ w, accepts w = run start w >>= accepting

namespace Automaton

variable {M : Type → Type} [Monad M] {P C : Type} {A B : Automaton M P C} {p : P}

theorem run_nil (p : P) : A.run p [] = pure p :=
  A.run_eq p []

theorem run_of_isStuck (h : A.isStuck p = true) (w : List C) : A.run p w = pure p :=
  (A.run_eq p w).trans (feed_of_stuck h w)

theorem run_cons_of_not_isStuck (h : ¬ A.isStuck p = true) (a : C) (w : List C) :
    A.run p (a :: w) = A.read p a >>= (A.run · w) := by
  simp only [run_eq, feed, if_neg h]

theorem eq_of_read (hstart : A.start = B.start) (hstuck : A.isStuck = B.isStuck)
    (hshown : A.shown = B.shown) (haccepting : A.accepting = B.accepting)
    (hread : A.read = B.read) : A = B := by
  have hrun : A.run = B.run := by
    funext p w
    rw [A.run_eq, B.run_eq, hstuck, hread]
  have haccepts : A.accepts = B.accepts := by
    funext w
    rw [A.accepts_eq, B.accepts_eq, hrun, hstart, haccepting]
  cases A
  cases B
  simp_all only

end Automaton

variable {S C : Type} [Ordered S] [Ordered C]

def Dfa.automaton (m : Dfa S C) : Automaton Option (Control S) C where
  start := .active m.start
  isStuck := Control.isStuck
  shown := m.settled?
  accepting := m.accepting?
  read := m.read?
  run := m.run?
  accepts := m.accepts?
  run_eq _ _ := rfl
  accepts_eq _ := rfl

def Nfa.automaton (m : Nfa S C) : Automaton Id (SortedSet S) C where
  start := {m.start}
  isStuck := SortedSet.isEmpty
  shown := m.closed
  accepting := m.accepting
  read := m.read
  run := m.run
  accepts := m.accepts
  run_eq _ _ := rfl
  accepts_eq _ := rfl

def Dpda.automaton (m : Dpda S C) (bound : Nat) : Automaton Option (PushdownConfig S C) C where
  start := m.startConfig
  isStuck := PushdownConfig.isStuck
  shown := m.settled? bound
  accepting := m.accepting? bound
  read := m.read? bound
  run := m.run? bound
  accepts := m.accepts? bound
  run_eq _ _ := rfl
  accepts_eq _ := rfl

def Npda.automaton (m : Npda S C) (bound : Nat) :
    Automaton Option (SortedSet (PushdownConfig S C)) C where
  start := {m.startConfig}
  isStuck := SortedSet.isEmpty
  shown := m.closed? bound
  accepting := m.accepting? bound
  read := m.read? bound
  run := m.run? bound
  accepts := m.accepts? bound
  run_eq _ _ := rfl
  accepts_eq _ := rfl

end TableMachines
