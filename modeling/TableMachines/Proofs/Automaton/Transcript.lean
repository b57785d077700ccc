import Mathlib.Order.Bounds.Defs
import TableMachines.Finite.Event
import TableMachines.Proofs.Automaton.Stuck
import TableMachines.Pushdown.Event

namespace TableMachines

class LawfulPartial (M : Type → Type) [Monad M] : Prop extends LawfulMonad M where
  pure_inj {α : Type} {x y : α} : (pure x : M α) = pure y → x = y
  of_bind {α β : Type} {x : M α} {f : α → M β} {z : β} :
    x >>= f = pure z → ∃ y, x = pure y ∧ f y = pure z

instance : LawfulPartial Option where
  pure_inj h := Option.some.inj h
  of_bind h := Option.bind_eq_some_iff.1 h

instance : LawfulPartial Id where
  pure_inj h := h
  of_bind h := ⟨_, rfl, h⟩

namespace Automaton

variable {M : Type → Type} [Monad M] {P C E : Type} {A : Automaton M P C} {p q z : P} {a : C}
  {w : List C} {e : E} {log : List E} {tells : P → C → P → E → Prop} {note : P → C → M (List E)}
  {i j : Nat}

def StuckAfter (A : Automaton M P C) (p : P) (w : List C) (j : Nat) : Prop :=
  j ≤ w.length ∧ ∃ q, A.run p (w.take j) = pure q ∧ A.isStuck q = true

/-- Of each symbol up to the one that sticks the automaton the log tells what is stored before it, the
symbol and what is stored after it. -/
structure Faithful [Event E] (A : Automaton M P C) (tells : P → C → P → E → Prop) (p : P)
    (w : List C) (log : List E) : Prop where
  length_of_stuck : ∀ k, IsLeast {j | A.StuckAfter p w j} k → log.length = k
  length_of_never : (∀ j, ¬ A.StuckAfter p w j) → log.length = w.length
  event : ∀ i e, log[i]? = some e → ∃ a q q', w[i]? = some a ∧ A.run p (w.take i) = pure q ∧
    A.run p (w.take (i + 1)) = pure q' ∧ tells q a q' e
  debug_last : ∀ i e, log[i]? = some e → (Event.entry e).level = .debug → i + 1 = log.length

structure NotesReads [Event E] (A : Automaton M P C) (note : P → C → M (List E))
    (tells : P → C → P → E → Prop) : Prop where
  exists_event : ∀ p a q, A.isStuck p = false → A.read p a = pure q →
    ∃ e, note p a = pure [e] ∧ tells p a q e
  stuck_of_debug : ∀ p a q e, tells p a q e → (Event.entry e).level = .debug → A.isStuck q = true

inductive Logs (A : Automaton M P C) (tells : P → C → P → E → Prop) : P → List C → List E → Prop
  | nil (p : P) : Logs A tells p [] []
  | stuck {p : P} (w : List C) : A.isStuck p = true → Logs A tells p w []
  | read {p q : P} {a : C} {w : List C} {e : E} {log : List E} : A.isStuck p = false →
      A.read p a = pure q → tells p a q e → Logs A tells q w log → Logs A tells p (a :: w) (e :: log)

theorem stuckAfter_zero (hp : A.isStuck p = true) (w : List C) : A.StuckAfter p w 0 :=
  ⟨Nat.zero_le _, p, run_nil p, hp⟩

variable [LawfulPartial M]

theorem not_stuckAfter_zero (hp : A.isStuck p = false) : ¬ A.StuckAfter p w 0 := by
  rintro ⟨_, q, hrun, hq⟩
  rw [List.take_zero, run_nil] at hrun
  rw [LawfulPartial.pure_inj hrun, hq] at hp
  cases hp

theorem run_take_succ (hp : A.isStuck p = false) (hq : A.read p a = pure q) (w : List C) (j : Nat) :
    A.run p ((a :: w).take (j + 1)) = A.run q (w.take j) := by
  rw [List.take_succ_cons, run_cons_of_not_isStuck (by simp [hp]), hq, pure_bind]

theorem stuckAfter_succ_iff (hp : A.isStuck p = false) (hq : A.read p a = pure q) :
    A.StuckAfter p (a :: w) (j + 1) ↔ A.StuckAfter q w j := by
  rw [StuckAfter, StuckAfter, run_take_succ hp hq, List.length_cons, Nat.succ_le_succ_iff]

theorem NotesReads.exists_logs [Event E] (h : A.NotesReads note tells) (hrun : A.run p w = pure z) :
    ∃ log, transcript A.isStuck A.read note p w = pure log ∧ A.Logs tells p w log := by
  induction w generalizing p with
  | nil => exact ⟨[], rfl, .nil p⟩
  | cons a w ih =>
    by_cases hp : A.isStuck p = true
    · exact ⟨[], if_pos hp, .stuck _ hp⟩
    · rw [run_cons_of_not_isStuck hp] at hrun
      obtain ⟨q, hq, hrest⟩ := LawfulPartial.of_bind hrun
      have hp' : A.isStuck p = false := by simpa using hp
      obtain ⟨e, hnote, he⟩ := h.exists_event p a q hp' hq
      obtain ⟨log, hlog, hlogs⟩ := ih hrest
      refine ⟨e :: log, ?_, .read hp' hq he hlogs⟩
      rw [transcript, if_neg hp, hnote, hq]
      simp only [pure_bind, hlog, List.singleton_append]

namespace Logs

theorem not_stuckAfter (h : A.Logs tells p w log) (hj : j < log.length) : ¬ A.StuckAfter p w j := by
  induction h generalizing j with
  | nil => exact absurd hj (Nat.not_lt_zero j)
  | stuck => exact absurd hj (Nat.not_lt_zero j)
  | read hp hq _ _ ih =>
    cases j with
    | zero => exact not_stuckAfter_zero hp
    | succ j =>
      rw [stuckAfter_succ_iff hp hq]
      exact ih (Nat.lt_of_succ_lt_succ hj)

theorem length_or_stuckAfter (h : A.Logs tells p w log) :
    log.length = w.length ∨ A.StuckAfter p w log.length := by
  induction h with
  | nil => exact .inl rfl
  | stuck w hp => exact .inr (stuckAfter_zero hp w)
  | read hp hq _ _ ih =>
    rw [List.length_cons, List.length_cons, stuckAfter_succ_iff hp hq, Nat.succ_inj]
    exact ih

theorem event (h : A.Logs tells p w log) (hi : log[i]? = some e) :
    ∃ a q q', w[i]? = some a ∧ A.run p (w.take i) = pure q ∧ A.run p (w.take (i + 1)) = pure q' ∧
      tells q a q' e := by
  induction h generalizing i with
  | nil => cases hi
  | stuck => cases hi
  | @read p q a w _ _ hp hq he _ ih =>
    cases i with
    | zero =>
      cases hi
      refine ⟨a, p, q, rfl, run_nil p, ?_, he⟩
      rw [run_take_succ hp hq, List.take_zero, run_nil]
    | succ i =>
      obtain ⟨b, r, r', hb, hr, hr', hrest⟩ := ih hi
      refine ⟨b, r, r', hb, ?_, ?_, hrest⟩
      · rw [run_take_succ hp hq, hr]
      · rw [run_take_succ hp hq, hr']

theorem faithful [Event E] (hnotes : A.NotesReads note tells) (h : A.Logs tells p w log) :
    A.Faithful tells p w log where
  length_of_stuck k hk := by
    have hle : ¬ k < log.length := fun hlt => h.not_stuckAfter hlt hk.1
    rcases h.length_or_stuckAfter with hlength | hstuck
    · have hbound := hk.1.1
      omega
    · have hleast := hk.2 hstuck
      omega
  length_of_never hnever := h.length_or_stuckAfter.resolve_right (hnever _)
  event _ _ hi := h.event hi
  debug_last i e hi hdebug := by
    obtain ⟨a, q, q', ha, _, hrun, he⟩ := h.event hi
    have hstuck := hnotes.stuck_of_debug q a q' e he hdebug
    obtain ⟨hlength, _⟩ := List.getElem?_eq_some_iff.1 ha
    obtain ⟨hlog, _⟩ := List.getElem?_eq_some_iff.1 hi
    -- were there a further event, the automaton would not be stuck before it
    have hlast : ¬ i + 1 < log.length := fun hlt => h.not_stuckAfter hlt ⟨hlength, q', hrun, hstuck⟩
    omega

end Logs

theorem NotesReads.exists_faithful [Event E] (h : A.NotesReads note tells)
    (hrun : A.run p w = pure z) :
    ∃ log, transcript A.isStuck A.read note p w = pure log ∧ A.Faithful tells p w log := by
  obtain ⟨log, hlog, hlogs⟩ := h.exists_logs hrun
  exact ⟨log, hlog, hlogs.faithful h⟩

end Automaton

open Table

variable {S C : Type} [Ordered S] [Ordered C] [Inspect S] [Inspect C]

def Dfa.Tells (m : Dfa S C) (p : Control S) (a : C) (q : Control S) (e : FiniteEvent S C) : Prop :=
  ∃ s, m.settled? p = some (.active s) ∧
    ((∃ t, next? m.rules s (some a) = some t ∧ q = .active t ∧ e = .moved s a t ∧
        (Event.entry e).level = .trace) ∨
      (next? m.rules s (some a) = none ∧ q = .stuck ∧ e = .stuck s a ∧
        (Event.entry e).level = .debug))

def Nfa.Tells (_ : SortedSet S) (a : C) (q : SortedSet S) (e : FiniteEvent S C) : Prop :=
  e = .advanced a q ∧ (Event.entry e).level = .trace

def Dpda.Tells (m : Dpda S C) (bound : Nat) (p : PushdownConfig S C) (a : C)
    (q : PushdownConfig S C) (e : PushdownEvent S C) : Prop :=
  ∃ k, m.settled? bound p = some k ∧
    ((next? m.rules k (some a) = some q ∧ e = .moved a q ∧ (Event.entry e).level = .trace) ∨
      (next? m.rules k (some a) = none ∧ q = k.jam ∧ e = .stuck a k ∧
        (Event.entry e).level = .debug))

def Npda.Tells (_ : SortedSet (PushdownConfig S C)) (a : C) (q : SortedSet (PushdownConfig S C))
    (e : PushdownEvent S C) : Prop :=
  e = .advanced a q.size ∧ (Event.entry e).level = .trace

theorem Dfa.notesReads (m : Dfa S C) : m.automaton.NotesReads m.note? m.Tells where
  exists_event p a q hp hq := by
    cases p with
    | stuck => cases hp
    | active s =>
      obtain ⟨c, hc, -⟩ := Option.bind_eq_some_iff.1 hq
      obtain ⟨z, -, rfl⟩ := Option.map_eq_some_iff.1 hc
      have hread : m.read? (.active s) a = some q := hq
      rw [read?_of_settled? hc, Control.state?_active, Option.bind_some] at hread
      cases hnext : next? m.rules z (some a) with
      | none =>
        rw [hnext] at hread
        cases hread
        refine ⟨.stuck z a, ?_, z, hc, .inr ⟨hnext, rfl, rfl, rfl⟩⟩
        simp [note?, hc, hnext]
      | some t =>
        rw [hnext] at hread
        cases hread
        refine ⟨.moved z a t, ?_, z, hc, .inl ⟨t, hnext, rfl, rfl, rfl⟩⟩
        simp [note?, hc, hnext]
  stuck_of_debug p a q e he hdebug := by
    obtain ⟨s, _, ⟨t, _, _, _, htrace⟩ | ⟨_, rfl, _⟩⟩ := he
    · cases htrace.symm.trans hdebug
    · rfl

theorem Nfa.notesReads (m : Nfa S C) :
    m.automaton.NotesReads (fun p a => (pure (m.note p a) : Id _)) Nfa.Tells where
  exists_event p a q _ hq := by
    cases hq
    exact ⟨_, rfl, rfl, rfl⟩
  stuck_of_debug p a q e he hdebug := by
    cases he.2.symm.trans hdebug

theorem Dpda.notesReads (m : Dpda S C) (bound : Nat) :
    (m.automaton bound).NotesReads (m.note? bound) (m.Tells bound) where
  exists_event p a q _ hq := by
    obtain ⟨k, hk, -⟩ := Option.bind_eq_some_iff.1 hq
    have hread : m.read? bound p a = some q := hq
    rw [read?_of_settled? hk] at hread
    cases hnext : next? m.rules k (some a) with
    | none =>
      rw [hnext] at hread
      cases hread
      refine ⟨.stuck a k, ?_, k, hk, .inr ⟨hnext, rfl, rfl, rfl⟩⟩
      simp [note?, hk, hnext]
    | some l =>
      rw [hnext] at hread
      cases hread
      refine ⟨.moved a l, ?_, k, hk, .inl ⟨hnext, rfl, rfl⟩⟩
      simp [note?, hk, hnext]
  stuck_of_debug p a q e he hdebug := by
    obtain ⟨k, _, ⟨_, _, htrace⟩ | ⟨_, rfl, _⟩⟩ := he
    · cases htrace.symm.trans hdebug
    · rfl

theorem Npda.notesReads (m : Npda S C) (bound : Nat) :
    (m.automaton bound).NotesReads (m.note? bound) Npda.Tells where
  exists_event p a q _ hq := by
    have hread : m.read? bound p a = some q := hq
    rw [note?, hread]
    exact ⟨_, rfl, rfl, rfl⟩
  stuck_of_debug p a q e he hdebug := by
    cases he.2.symm.trans hdebug

end TableMachines
