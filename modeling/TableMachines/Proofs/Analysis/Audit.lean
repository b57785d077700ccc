import Mathlib.Data.List.Pairwise
import TableMachines.Analysis.Audit
import TableMachines.Proofs.Rule
import TableMachines.Proofs.SortedSet.Saturation

namespace TableMachines

theorem collide_comm {C : Type} {a b : Option C} : Collide a b ↔ Collide b a := by
  rw [collide_iff, collide_iff, or_left_comm, eq_comm (a := a) (b := b)]

namespace Table

section Conflicts

variable {R S C K : Type} [Rule R S C K] {rules : Table R} {r t : R} {k : K}

theorem conflicts_eq_nil_iff : conflicts rules = [] ↔ rules.Pairwise fun r t => ¬ Rule.Overlaps r t := by
  induction rules with
  | nil => simp [conflicts]
  | cons r rules ih => simp [conflicts, ih]

theorem conflict?_eq_none_iff :
    conflict? rules = none ↔ rules.Pairwise fun r t => ¬ Rule.Overlaps r t := by
  rw [← conflicts_eq_nil_iff]
  unfold conflict?
  cases conflicts rules with
  | nil => simp
  | cons => simp

variable [LawfulRule R S C K]

theorem overlaps_comm : Rule.Overlaps r t ↔ Rule.Overlaps t r := by
  simp only [LawfulRule.overlaps_iff, collide_comm (a := Rule.trigger t), and_comm (a := Rule.Fits t _)]

theorem eq_of_fits (hrules : conflict? rules = none) (hr : r ∈ rules) (ht : t ∈ rules)
    (hrk : Rule.Fits r k) (htk : Rule.Fits t k) (hc : Collide (Rule.trigger r) (Rule.trigger t)) :
    r = t := by
  by_contra hne
  have hsymm : Std.Symm fun r t : R => ¬ Rule.Overlaps r t := ⟨fun _ _ h hover =>
    h (overlaps_comm.1 hover)⟩
  exact (conflict?_eq_none_iff.1 hrules).forall hr ht hne (LawfulRule.overlaps_iff.2 ⟨hc, k, hrk, htk⟩)

end Conflicts

open SortedSet

variable {R S C K : Type} [Ordered S] [Rule R S C K] {rules : Table R} {s t : S}

theorem freeCycleProblem?_eq_none_iff : freeCycleProblem? rules = none ↔ freeCycle? rules = none :=
  Option.map_eq_none_iff

theorem freeCycleProblem?_eq_some_iff {cycle : List S} :
    freeCycleProblem? rules = some (.freeCycle cycle) ↔ freeCycle? rules = some cycle := by
  simp [freeCycleProblem?]

theorem mem_targets : t ∈ targets rules s ↔ ∃ r ∈ rules, Rule.source r = s ∧ Rule.target r = t := by
  simp [targets, and_assoc]

theorem target_of_leads (h : Leads (targets rules) s t) : t = s ∨ t ∈ rules.map Rule.target := by
  rcases h.cases_tail with h | ⟨u, _, hu⟩
  · exact .inl h
  · obtain ⟨r, hr, _, rfl⟩ := mem_targets.1 hu
    exact .inr (List.mem_map_of_mem hr)

theorem saturate?_targets {n : Nat} (hn : rules.length < n) :
    saturate? (targets rules) n {s} = some (saturate (targets rules) n {s}) := by
  apply saturate?_eq_saturate (rules.map Rule.target)
  · intro u hu v huv
    rw [mem_singleton.1 hu] at huv
    rw [mem_singleton]
    exact target_of_leads huv
  · rwa [List.length_map]

theorem mem_reachable : t ∈ reachable rules s ↔ Leads (targets rules) s t := by
  have hreachable : saturate? (targets rules) (rules.length + 1) {s} = some (reachable rules s) :=
    saturate?_targets (Nat.lt_succ_self _)
  simp only [mem_saturate? hreachable, mem_singleton, exists_eq_left]

theorem saturate?_eq_reachable {n : Nat} (hn : rules.length < n) :
    saturate? (targets rules) n {s} = some (reachable rules s) := by
  have hsome := saturate?_targets (s := s) hn
  rw [hsome]
  congr 1
  ext t
  rw [mem_reachable]
  simp only [mem_saturate? hsome, mem_singleton, exists_eq_left]

variable {accept : SortedSet S}

theorem mem_unreachable : t ∈ unreachable rules s accept ↔ t ∈ accept ∧ ¬ Leads (targets rules) s t := by
  simp only [unreachable, mem_toList, mem_filter, decide_eq_true_iff, mem_reachable]

theorem unreachableProblem?_eq_none_iff :
    unreachableProblem? rules s accept = none ↔ ∀ t ∈ accept, Leads (targets rules) s t := by
  have hnil : unreachable rules s accept = [] ↔ ∀ t ∈ accept, Leads (targets rules) s t := by
    simp only [List.eq_nil_iff_forall_not_mem, mem_unreachable, not_and, not_not]
  rw [← hnil]
  unfold unreachableProblem?
  cases unreachable rules s accept with
  | nil => simp
  | cons => simp

end Table

open Table

variable {S C : Type} [Ordered S] [Ordered C]

theorem Dfa.problem?_eq_none_iff {m : Dfa S C} :
    m.problem? = none ↔ conflict? m.rules = none ∧ freeCycleProblem? m.rules = none ∧
      unreachableProblem? m.rules m.start m.accept = none := by
  simp [Dfa.problem?]

theorem Dpda.problem?_eq_none_iff {m : Dpda S C} :
    m.problem? = none ↔ conflict? m.rules = none ∧ freeCycleProblem? m.rules = none ∧
      unreachableProblem? m.rules m.start m.accept = none := by
  simp [Dpda.problem?]

end TableMachines
