import TableMachines.Proofs.Automaton.Basic
import TableMachines.Proofs.Table.FirstMatch
import TableMachines.Proofs.Table.Settling
import TableMachines.Pushdown.Automata

namespace TableMachines

open Table

variable {S C : Type} {k l : PushdownConfig S C}

namespace PushdownConfig

theorem jam_of_isStuck (h : k.isStuck = true) : k.jam = k := by
  obtain ⟨control, stack⟩ := k
  cases control with
  | active s => cases h
  | stuck => rfl

theorem state?_of_isStuck (h : k.isStuck = true) : k.control.state? = none := by
  obtain ⟨control, stack⟩ := k
  cases control with
  | active s => cases h
  | stuck => rfl

variable [Ordered S] [Ordered C] {rules : Table (PushdownRule S C)} {a : Option C} {n : Nat}

theorem next?_of_isStuck (h : k.isStuck = true) : next? rules k a = none := by
  refine next?_eq_none_iff.2 fun r _ happ => ?_
  rw [isStuck, happ.2.1] at h
  cases h

theorem isStuck_of_next? (h : next? rules k a = some l) : k.isStuck = false ∧ l.isStuck = false := by
  constructor
  · refine Bool.eq_false_iff.2 fun hk => ?_
    rw [next?_of_isStuck hk] at h
    cases h
  · obtain ⟨r, _, _, rfl⟩ := exists_rule_of_next? h
    rfl

theorem isStuck_of_freeRun (h : FreeRun rules n k l) : l.isStuck = k.isStuck := by
  induction h with
  | refl k => rfl
  | head hnext _ ih => rw [ih, (isStuck_of_next? hnext).1, (isStuck_of_next? hnext).2]

end PushdownConfig

namespace Dpda

open PushdownConfig

variable [Ordered S] [Ordered C] {m : Dpda S C} {bound : Nat}

theorem settled?_of_isStuck (h : k.isStuck = true) : m.settled? bound k = some k :=
  settle?_of_none (next?_of_isStuck h) bound

theorem read?_of_settled? (h : m.settled? bound k = some l) (a : C) :
    m.read? bound k a = some ((next? m.rules l (some a)).getD l.jam) := by
  rw [read?, h]
  cases hnext : next? m.rules l (some a) with
  | none => simp [hnext]
  | some k' => simp [hnext]

theorem read?_of_isStuck (h : k.isStuck = true) (a : C) : m.read? bound k a = some k := by
  rw [read?_of_settled? (settled?_of_isStuck h), next?_of_isStuck h]
  exact congrArg some (jam_of_isStuck h)

theorem run?_of_isStuck (h : k.isStuck = true) (w : List C) : m.run? bound k w = some k :=
  feed_of_stuck h w

theorem run?_cons (k : PushdownConfig S C) (a : C) (w : List C) :
    m.run? bound k (a :: w) = (m.read? bound k a).bind (m.run? bound · w) := by
  have hstuck (k : PushdownConfig S C) (a : C) (h : k.isStuck = true) : m.read? bound k a = some k :=
    read?_of_isStuck h a
  simp only [run?, feed_eq_foldlM hstuck, List.foldlM_cons]
  rfl

theorem accepting?_of_settled? (h : m.settled? bound k = some l) :
    m.accepting? bound k = some (l.control.state?.any (· ∈ m.accept)) := by
  rw [accepting?, h]
  obtain ⟨control, stack⟩ := l
  cases control with
  | active s => rfl
  | stuck => rfl

theorem accepts?_of_run? {w : List C} (h : m.run? bound m.startConfig w = some k) :
    m.accepts? bound w = m.accepting? bound k := by
  rw [accepts?, h]
  rfl

structure Answers (m : Dpda S C) (least : Nat) : Prop where
  settled : ∀ p, ∃ q, ∀ bound, least ≤ bound → m.settled? bound p = some q
  read : ∀ p a, ∃ q, ∀ bound, least ≤ bound → m.read? bound p a = some q
  run : ∀ p w, ∃ q, ∀ bound, least ≤ bound → m.run? bound p w = some q
  accepting : ∀ p, ∃ b, ∀ bound, least ≤ bound → m.accepting? bound p = some b
  accepts : ∀ w, ∃ b, ∀ bound, least ≤ bound → m.accepts? bound w = some b

theorem exists_settled? (hcycle : freeCycle? m.rules = none) (p : PushdownConfig S C) :
    ∃ q, ∀ bound, (freeSources m.rules).size ≤ bound → m.settled? bound p = some q := by
  obtain ⟨n, _, q, hend⟩ := exists_endsAt hcycle p
  exact ⟨q, fun bound hbound => hend.settle?_eq hcycle hbound⟩

theorem exists_read? (hcycle : freeCycle? m.rules = none) (p : PushdownConfig S C) (a : C) :
    ∃ q, ∀ bound, (freeSources m.rules).size ≤ bound → m.read? bound p a = some q := by
  obtain ⟨k, hk⟩ := exists_settled? hcycle p
  exact ⟨_, fun bound hbound => read?_of_settled? (hk bound hbound) a⟩

theorem exists_run? (hcycle : freeCycle? m.rules = none) (p : PushdownConfig S C) (w : List C) :
    ∃ q, ∀ bound, (freeSources m.rules).size ≤ bound → m.run? bound p w = some q := by
  induction w generalizing p with
  | nil => exact ⟨p, fun _ _ => rfl⟩
  | cons a w ih =>
    obtain ⟨p', hp'⟩ := exists_read? hcycle p a
    obtain ⟨q, hq⟩ := ih p'
    refine ⟨q, fun bound hbound => ?_⟩
    rw [run?_cons, hp' bound hbound]
    exact hq bound hbound

theorem exists_accepting? (hcycle : freeCycle? m.rules = none) (p : PushdownConfig S C) :
    ∃ b, ∀ bound, (freeSources m.rules).size ≤ bound → m.accepting? bound p = some b := by
  obtain ⟨k, hk⟩ := exists_settled? hcycle p
  exact ⟨_, fun bound hbound => accepting?_of_settled? (hk bound hbound)⟩

theorem answers_of_freeCycle? (hcycle : freeCycle? m.rules = none) :
    m.Answers (freeSources m.rules).size where
  settled := exists_settled? hcycle
  read := exists_read? hcycle
  run := exists_run? hcycle
  accepting := exists_accepting? hcycle
  accepts w := by
    obtain ⟨q, hq⟩ := exists_run? hcycle m.startConfig w
    obtain ⟨b, hb⟩ := exists_accepting? hcycle q
    refine ⟨b, fun bound hbound => ?_⟩
    rw [accepts?_of_run? (hq bound hbound), hb bound hbound]

end Dpda

end TableMachines
