import TableMachines.Catalog.Tables
import TableMachines.Proofs.Analysis.Audit
import TableMachines.Proofs.Finite.Agreement
import TableMachines.Proofs.Finite.Reading
import TableMachines.Proofs.Pushdown.Agreement
import TableMachines.Proofs.Pushdown.Reading
import TableMachines.Proofs.Table.Deterministic

namespace TableMachines

namespace Table

section

variable {R S C K : Type} [Ordered S] [Ordered C] [Rule R S C K] {rules : Table R}

def Settles (rules : Table R) : Prop :=
  ∀ k, ∃ n ≤ (freeSources rules).size, ∃ k', EndsAt rules n k k' ∧
    ∀ bound, n ≤ bound → settle? rules bound k = some k'

theorem settles_of_freeCycle? [LawfulRule R S C K] (hcycle : freeCycle? rules = none) :
    Settles rules := by
  intro k
  obtain ⟨n, hn, k', hend⟩ := exists_endsAt hcycle k
  exact ⟨n, hn, k', hend, fun bound hbound => settle?_eq_some_iff.2 ⟨n, hbound, hend⟩⟩

end

variable {S C : Type} [Ordered S] [Ordered C] {rules : Table (FiniteRule S C)} {cycle : List S}
  {s t : S}

theorem next?_of_freeMove (hrules : conflict? rules = none) (h : FreeMove rules s t) :
    next? rules s none = some t := by
  obtain ⟨r, hr, hfree, hs, ht⟩ := h
  have happ : Rule.Applies r s none := ⟨Option.isNone_iff_eq_none.1 hfree, hs⟩
  exact (mem_successors_iff_next? hrules).1 (mem_successors.2 ⟨r, hr, happ, ht⟩)

theorem IsFreeCycle.freeRun (hrules : conflict? rules = none) (hcycle : IsFreeCycle rules cycle)
    (hs : s ∈ cycle) (n : Nat) : ∃ t ∈ cycle, FreeRun rules n s t := by
  induction n generalizing s with
  | zero => exact ⟨s, hs, .refl s⟩
  | succ n ih =>
    obtain ⟨u, hu, hsu⟩ := hcycle.exists_next hs
    obtain ⟨t, ht, hrun⟩ := ih hu
    exact ⟨t, ht, .head (next?_of_freeMove hrules hsu) hrun⟩

theorem IsFreeCycle.settle?_eq_none (hrules : conflict? rules = none)
    (hcycle : IsFreeCycle rules cycle) (hs : s ∈ cycle) (bound : Nat) :
    settle? rules bound s = none := by
  obtain ⟨t, _, hrun⟩ := hcycle.freeRun hrules hs (bound + 1)
  exact settle?_eq_none_iff.2 ⟨t, hrun⟩

theorem freeCycleProblem?_decides_settling :
    (∀ rules : Table (FiniteRule S C), freeCycleProblem? rules = none →
      Settles rules ∧ ∀ start accept, (Dfa.mk start accept rules).Answers) ∧
    (∀ rules : Table (PushdownRule S C), freeCycleProblem? rules = none →
      Settles rules ∧
        ∀ start bottom accept, (Dpda.mk start bottom accept rules).Answers (freeSources rules).size) ∧
    (∀ m : Dfa S C, m.problem? = none → Settles m.rules ∧ m.Answers) ∧
    (∀ m : Dpda S C, m.problem? = none → Settles m.rules ∧ m.Answers (freeSources m.rules).size) ∧
    ∀ (rules : Table (FiniteRule S C)) (cycle : List S), conflict? rules = none →
      freeCycleProblem? rules = some (.freeCycle cycle) →
        cycle ≠ [] ∧ ∀ s ∈ cycle, ∀ bound, settle? rules bound s = none := by
  refine ⟨fun rules h => ?_, fun rules h => ?_, fun m h => ?_, fun m h => ?_,
    fun rules cycle hrules h => ?_⟩
  · have hcycle := freeCycleProblem?_eq_none_iff.1 h
    exact ⟨settles_of_freeCycle? hcycle, fun start accept => Dfa.answers_of_freeCycle? hcycle⟩
  · have hcycle := freeCycleProblem?_eq_none_iff.1 h
    exact ⟨settles_of_freeCycle? hcycle, fun start bottom accept => Dpda.answers_of_freeCycle? hcycle⟩
  · have hcycle := freeCycleProblem?_eq_none_iff.1 (Dfa.problem?_eq_none_iff.1 h).2.1
    exact ⟨settles_of_freeCycle? hcycle, Dfa.answers_of_freeCycle? hcycle⟩
  · have hcycle := freeCycleProblem?_eq_none_iff.1 (Dpda.problem?_eq_none_iff.1 h).2.1
    exact ⟨settles_of_freeCycle? hcycle, Dpda.answers_of_freeCycle? hcycle⟩
  · have hcycle := isFreeCycle_of_freeCycle? (freeCycleProblem?_eq_some_iff.1 h)
    refine ⟨?_, fun s hs bound => hcycle.settle?_eq_none hrules hs bound⟩
    rintro rfl
    exact hcycle

theorem freeCycleProblem?_decides_settling_ab :
    let chain := Catalog.finite [(1, none, 2), (2, some 'a', 1)]
    let loop := Catalog.finite [(1, none, 2), (2, none, 1), (3, some 'a', 1)]
    let m := Catalog.equalAsAndBs
    (Settles chain ∧ (Dfa.mk 1 {2} chain).Answers) ∧
    (Settles m.rules ∧ m.Answers (freeSources m.rules).size) ∧
    ∀ s ∈ [1, 2], ∀ bound, settle? loop bound s = none := by
  intro chain loop m
  obtain ⟨_, hpushdown, hdfa, _, hloop⟩ := freeCycleProblem?_decides_settling (S := UInt32) (C := Char)
  have hm := hpushdown m.rules (by decide)
  refine ⟨hdfa ⟨1, {2}, chain⟩ (by decide), ⟨hm.1, hm.2 m.start m.bottom m.accept⟩, ?_⟩
  exact (hloop loop [1, 2] (by decide) (by decide)).2

end Table

open Table

variable {S C : Type} [Ordered S] [Ordered C]

theorem firstMatch_agrees_with_allMatches :
    (∀ m : Dfa S C, conflict? m.rules = none → freeCycleProblem? m.rules = none →
      ∀ w, ∃ q z ks b b', m.Agreement w q z ks b b') ∧
    (∀ m : Dpda S C, conflict? m.rules = none → freeCycleProblem? m.rules = none →
      ∀ w, ∃ q z raw ks b b', ∀ bound, (freeSources m.rules).size < bound →
        m.Agreement bound w q z raw ks b b') := by
  constructor
  · intro m hrules hcycle w
    exact Dfa.exists_agreement hrules (freeCycleProblem?_eq_none_iff.1 hcycle) w
  · intro m hrules hcycle w
    exact Dpda.exists_agreement hrules (freeCycleProblem?_eq_none_iff.1 hcycle) w

theorem firstMatch_agrees_with_allMatches_ab :
    let m : Dfa UInt32 Char := ⟨1, {1}, Catalog.finite [(1, some 'a', 2), (2, none, 3), (3, some 'b', 1)]⟩
    let m' := Catalog.equalAsAndBs
    (∃ q z ks b b', m.Agreement ['a', 'b'] q z ks b b') ∧
    ∃ q z raw ks b b', ∀ bound, (freeSources m'.rules).size < bound →
      m'.Agreement bound ['a', 'b'] q z raw ks b b' := by
  intro m m'
  obtain ⟨hdfa, hdpda⟩ := firstMatch_agrees_with_allMatches (S := UInt32) (C := Char)
  constructor
  · exact hdfa m (by decide) (by decide) ['a', 'b']
  · exact hdpda m' (by decide) (by decide) ['a', 'b']

end TableMachines
