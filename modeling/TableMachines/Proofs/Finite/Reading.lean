import TableMachines.Finite.Automata
import TableMachines.Proofs.Automaton.Basic
import TableMachines.Proofs.Table.Settling

namespace TableMachines

namespace Control

variable {S : Type}

def ofState? : Option S → Control S
  | some s => .active s
  | none => .stuck

end Control

namespace Dfa

open Table

variable {S C : Type} [Ordered S] [Ordered C] {m : Dfa S C}

theorem read?_of_settled? {p q : Control S} (h : m.settled? p = some q) (a : C) :
    m.read? p a = some (.ofState? (q.state?.bind (next? m.rules · (some a)))) := by
  rw [read?, h]
  cases q with
  | active s =>
    change _ = some (Control.ofState? (next? m.rules s (some a)))
    cases hnext : next? m.rules s (some a) with
    | none => simp [hnext, Control.ofState?]
    | some t => simp [hnext, Control.ofState?]
  | stuck => rfl

theorem read?_stuck (a : C) : m.read? .stuck a = some .stuck := rfl

theorem run?_eq_foldlM (p : Control S) (w : List C) : m.run? p w = w.foldlM m.read? p := by
  apply feed_eq_foldlM
  intro p a hp
  cases p with
  | active s => cases hp
  | stuck => exact read?_stuck a

theorem run?_cons (p : Control S) (a : C) (w : List C) :
    m.run? p (a :: w) = (m.read? p a).bind (m.run? · w) := by
  simp only [run?_eq_foldlM, List.foldlM_cons]
  rfl

theorem run?_stuck (w : List C) : m.run? .stuck w = some .stuck :=
  feed_of_stuck rfl w

theorem accepting?_of_settled? {p q : Control S} (h : m.settled? p = some q) :
    m.accepting? p = some (q.state?.any (· ∈ m.accept)) := by
  rw [accepting?, h]
  cases q with
  | active s => rfl
  | stuck => rfl

theorem accepts?_of_run? {q : Control S} {w : List C} (h : m.run? (.active m.start) w = some q) :
    m.accepts? w = m.accepting? q := by
  rw [accepts?, h]
  rfl

structure Answers (m : Dfa S C) : Prop where
  settled : ∀ p, ∃ q, m.settled? p = some q
  read : ∀ p a, ∃ q, m.read? p a = some q
  run : ∀ p w, ∃ q, m.run? p w = some q
  accepting : ∀ p, ∃ b, m.accepting? p = some b
  accepts : ∀ w, ∃ b, m.accepts? w = some b

theorem settled?_active_of_endsAt (hcycle : freeCycle? m.rules = none) {n : Nat} {s t : S}
    (hend : EndsAt m.rules n s t) : m.settled? (.active s) = some (.active t) := by
  rw [settled?, hend.settle?_eq hcycle (size_freeSources_le m.rules)]
  rfl

theorem exists_settled? (hcycle : freeCycle? m.rules = none) (p : Control S) :
    ∃ q, m.settled? p = some q := by
  cases p with
  | stuck => exact ⟨.stuck, rfl⟩
  | active s =>
    obtain ⟨n, _, t, hend⟩ := exists_endsAt hcycle s
    exact ⟨.active t, settled?_active_of_endsAt hcycle hend⟩

theorem exists_read? (hcycle : freeCycle? m.rules = none) (p : Control S) (a : C) :
    ∃ q, m.read? p a = some q := by
  obtain ⟨q, hq⟩ := exists_settled? hcycle p
  exact ⟨_, read?_of_settled? hq a⟩

theorem exists_accepting? (hcycle : freeCycle? m.rules = none) (p : Control S) :
    ∃ b, m.accepting? p = some b := by
  obtain ⟨q, hq⟩ := exists_settled? hcycle p
  exact ⟨_, accepting?_of_settled? hq⟩

theorem exists_run? (hcycle : freeCycle? m.rules = none) (p : Control S) (w : List C) :
    ∃ q, m.run? p w = some q := by
  induction w generalizing p with
  | nil => exact ⟨p, rfl⟩
  | cons a w ih =>
    obtain ⟨p', hp'⟩ := exists_read? hcycle p a
    obtain ⟨q, hq⟩ := ih p'
    refine ⟨q, ?_⟩
    rw [run?_cons, hp']
    exact hq

theorem answers_of_freeCycle? (hcycle : freeCycle? m.rules = none) : m.Answers where
  settled := exists_settled? hcycle
  read := exists_read? hcycle
  run := exists_run? hcycle
  accepting := exists_accepting? hcycle
  accepts w := by
    obtain ⟨q, hq⟩ := exists_run? hcycle (.active m.start) w
    rw [accepts?_of_run? hq]
    exact exists_accepting? hcycle q

variable {p : Control S} {s t : S} {bound : Nat}

theorem settled?_active (m : Dfa S C) (hbound : (freeSources m.rules).size ≤ bound) (s : S) :
    m.settled? (.active s) = (m.rules.settle? bound s).map .active := by
  rw [settled?, settle?_eq_settle? (size_freeSources_le m.rules) hbound]

theorem settled?_eq_some_iff : m.settled? (.active s) = some (.active t) ↔ ∃ n, EndsAt m.rules n s t := by
  rw [← settle?_eq_some_iff_endsAt (size_freeSources_le m.rules)]
  simp [settled?]

theorem final_of_settled? (h : m.settled? p = some (.active t)) : Final m.rules t := by
  cases p with
  | active s =>
    obtain ⟨n, hend⟩ := settled?_eq_some_iff.1 h
    exact hend.2
  | stuck => cases h

end Dfa

end TableMachines
