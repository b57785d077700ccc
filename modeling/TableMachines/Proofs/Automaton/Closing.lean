import TableMachines.Catalog.Tables
import TableMachines.Proofs.Automaton.Basic
import TableMachines.Proofs.Finite.Closed
import TableMachines.Proofs.Finite.Reading
import TableMachines.Proofs.Pushdown.Closed
import TableMachines.Proofs.Pushdown.Reading
import TableMachines.Subset.Event

namespace TableMachines

namespace Automaton

variable {M : Type → Type} [Monad M] {P C : Type} {A : Automaton M P C} {p q z : P}

structure Indistinct (A : Automaton M P C) (p q : P) : Prop where
  isStuck : ∀ w, A.isStuck <$> A.run p w = A.isStuck <$> A.run q w
  shown : ∀ w, A.run p w >>= A.shown = A.run q w >>= A.shown
  accepting : ∀ w, A.run p w >>= A.accepting = A.run q w >>= A.accepting

/-- What is shown is closed and stuck only with what is stored, and nothing else is looked at. -/
structure LooksAtShown (A : Automaton M P C) : Prop where
  shown : ∀ p z, A.shown p = pure z → A.shown z = pure z
  isStuck : ∀ p z, A.shown p = pure z → A.isStuck p = A.isStuck z
  accepting : ∃ judge : P → M Bool, ∀ p, A.accepting p = A.shown p >>= judge
  read : ∃ follow : P → C → M P, ∀ p a, A.read p a = A.shown p >>= (follow · a)

theorem run_eq_or (hstuck : A.isStuck p = A.isStuck q) (hread : ∀ a, A.read p a = A.read q a)
    (w : List C) : A.run p w = pure p ∧ A.run q w = pure q ∨ A.run p w = A.run q w := by
  -- no induction: the first read already stores the same from both, if there is one
  cases w with
  | nil => exact .inl ⟨run_nil p, run_nil q⟩
  | cons a w =>
    by_cases hp : A.isStuck p = true
    · exact .inl ⟨run_of_isStuck hp _, run_of_isStuck (hstuck ▸ hp) _⟩
    · have hq : ¬ A.isStuck q = true := hstuck ▸ hp
      right
      rw [run_cons_of_not_isStuck hp, run_cons_of_not_isStuck hq, hread]

theorem LooksAtShown.indistinct [LawfulMonad M] (h : A.LooksAtShown) (hz : A.shown p = pure z) :
    A.Indistinct p z := by
  have hshown : A.shown p = A.shown z := hz.trans (h.shown p z hz).symm
  have hstuck := h.isStuck p z hz
  obtain ⟨judge, haccepting⟩ := h.accepting
  obtain ⟨follow, hread⟩ := h.read
  have hrun := run_eq_or hstuck fun a => by rw [hread, hread, hshown]
  constructor
  · intro w
    rcases hrun w with ⟨hp, hq⟩ | heq
    · rw [hp, hq, map_pure, map_pure, hstuck]
    · rw [heq]
  · intro w
    rcases hrun w with ⟨hp, hq⟩ | heq
    · rw [hp, hq, pure_bind, pure_bind, hshown]
    · rw [heq]
  · intro w
    rcases hrun w with ⟨hp, hq⟩ | heq
    · rw [hp, hq, pure_bind, pure_bind, haccepting, haccepting, hshown]
    · rw [heq]

end Automaton

open PushdownConfig SortedSet Table

variable {S C : Type} [Ordered S] [Ordered C]

theorem Dfa.looksAtShown (m : Dfa S C) : m.automaton.LooksAtShown where
  shown p z hz := by
    cases p with
    | active s =>
      obtain ⟨t, ht, rfl⟩ := Option.map_eq_some_iff.1 hz
      exact congrArg (Option.map Control.active) (settle?_settled ht m.rules.length)
    | stuck =>
      cases hz
      rfl
  isStuck p z hz := by
    cases p with
    | active s =>
      obtain ⟨t, _, rfl⟩ := Option.map_eq_some_iff.1 hz
      rfl
    | stuck =>
      cases hz
      rfl
  accepting := ⟨_, fun _ => rfl⟩
  read := ⟨_, fun _ _ => rfl⟩

theorem Nfa.looksAtShown (m : Nfa S C) : m.automaton.LooksAtShown where
  shown p z hz := by
    cases hz
    exact closed_closed p
  isStuck p z hz := by
    cases hz
    exact isEmpty_of_closure? (m.closure?_eq p)
  accepting := ⟨(SortedSet.meets · m.accept), fun _ => rfl⟩
  read := ⟨fun z a => m.rules.advance (some a) z, fun _ _ => rfl⟩

theorem Dpda.looksAtShown (m : Dpda S C) (bound : Nat) : (m.automaton bound).LooksAtShown where
  shown k l hl := settle?_settled hl bound
  isStuck k l hl := by
    obtain ⟨n, _, hrun, _⟩ := settle?_eq_some_iff.1 hl
    exact (isStuck_of_freeRun hrun).symm
  accepting := ⟨_, fun _ => rfl⟩
  read := ⟨_, fun _ _ => rfl⟩

theorem Npda.looksAtShown (m : Npda S C) (bound : Nat) : (m.automaton bound).LooksAtShown where
  shown _ _ hr := saturate?_saturated hr
  isStuck _ _ hr := isEmpty_of_closure? hr
  accepting := ⟨_, fun _ => rfl⟩
  read := ⟨_, fun _ _ => rfl⟩

theorem Nfa.successor_closed (m : Nfa S C) (p : SortedSet S) (a : C) :
    m.successor (m.closed p) a = m.successor p a := by
  rw [successor, read_closed, successor]

theorem Nfa.targets_rulesFrom_closed (m : Nfa S C) (p : SortedSet S) :
    (m.rulesFrom (m.closed p)).map FiniteRule.target = (m.rulesFrom p).map FiniteRule.target := by
  simp only [rulesFrom, List.map_map, Function.comp_def, successor_closed]

theorem storing_the_closure_is_unobservable :
    (∀ (m : Dfa S C) (p z : Control S), m.settled? p = some z → m.automaton.Indistinct p z) ∧
    (∀ (m : Nfa S C) (p : SortedSet S), m.automaton.Indistinct p (m.closed p)) ∧
    (∀ (m : Dpda S C) (n : Nat) (k l : PushdownConfig S C), m.settled? n k = some l →
      ∀ bound, n ≤ bound → (m.automaton bound).Indistinct k l) ∧
    (∀ (m : Npda S C) (n : Nat) (p r : SortedSet (PushdownConfig S C)), m.closed? n p = some r →
      ∀ bound, n ≤ bound → (m.automaton bound).Indistinct p r) ∧
    ∀ (m : Nfa S C) (p : SortedSet S),
      (∀ a, m.successor (m.closed p) a = m.successor p a) ∧
      (m.rulesFrom (m.closed p)).map FiniteRule.target =
        (m.rulesFrom p).map FiniteRule.target := by
  refine ⟨fun m p z hz => ?_, fun m p => ?_, fun m n k l hl bound hbound => ?_,
    fun m n p r hr bound hbound => ?_, fun m p => ⟨?_, ?_⟩⟩
  · exact m.looksAtShown.indistinct hz
  · exact m.looksAtShown.indistinct rfl
  · exact (m.looksAtShown bound).indistinct (settle?_of_le hl hbound)
  · exact (m.looksAtShown bound).indistinct (saturate?_of_le hr hbound)
  · exact m.successor_closed p
  · exact m.targets_rulesFrom_closed p

theorem storing_the_closure_is_unobservable_emptied :
    let m : Dfa UInt32 Char := ⟨1, {2}, Catalog.finite [(1, none, 2), (2, some 'a', 1)]⟩
    let rules := Catalog.pushdown [(1, none, 2, '$', [])]
    let m' : Dpda UInt32 Char := ⟨1, '$', {2}, rules⟩
    let m'' : Npda UInt32 Char := ⟨1, '$', {2}, rules⟩
    let emptied : PushdownConfig UInt32 Char := ⟨.active 2, ⟨[]⟩⟩
    m.automaton.Indistinct (.active 1) (.active 2) ∧
    (∀ bound, 1 ≤ bound → (m'.automaton bound).Indistinct m'.startConfig emptied) ∧
    ∀ bound, 2 ≤ bound →
      (m''.automaton bound).Indistinct {m''.startConfig} {m''.startConfig, emptied} := by
  intro m rules m' m'' emptied
  obtain ⟨hdfa, _, hdpda, hnpda, _⟩ :=
    storing_the_closure_is_unobservable (S := UInt32) (C := Char)
  refine ⟨?_, ?_, ?_⟩
  · exact hdfa m (.active 1) (.active 2) (by decide)
  · exact hdpda m' 1 m'.startConfig emptied (by decide)
  · exact hnpda m'' 2 {m''.startConfig} {m''.startConfig, emptied} (by decide)

end TableMachines
