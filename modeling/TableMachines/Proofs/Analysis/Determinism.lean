import TableMachines.Catalog.Tables
import TableMachines.Proofs.Analysis.Interchange
import TableMachines.Proofs.Table.Deterministic
import TableMachines.Proofs.Table.Pruning

namespace TableMachines

namespace Table

variable {R S C K : Type} [Rule R S C K] {rules rules' : Table R}

def LeavesChoice (rules : Table R) (k : K) : Prop :=
  ∃ i j : Fin rules.length, i ≠ j ∧ Rule.Fits rules[i] k ∧ Rule.Fits rules[j] k ∧
    (Rule.trigger rules[i] = Rule.trigger rules[j] ∨ Rule.isFree rules[i] = true ∨
      Rule.isFree rules[j] = true)

theorem collide_iff_isFree {r t : R} : Collide (Rule.trigger r) (Rule.trigger t) ↔
    Rule.trigger r = Rule.trigger t ∨ Rule.isFree r = true ∨ Rule.isFree t = true := by
  simp only [collide_iff, Rule.isFree, Option.isNone_iff_eq_none]
  tauto

variable [LawfulRule R S C K]

theorem conflict?_eq_none_iff_leavesChoice :
    conflict? rules = none ↔ ¬ ∃ k, LeavesChoice rules k := by
  rw [conflict?_eq_none_iff, List.pairwise_iff_getElem]
  constructor
  · rintro h ⟨k, i, j, hne, hi, hj, hc⟩
    have hover : Rule.Overlaps rules[i] rules[j] :=
      LawfulRule.overlaps_iff.2 ⟨collide_iff_isFree.2 hc, k, hi, hj⟩
    rcases Nat.lt_or_gt_of_ne (Fin.val_ne_of_ne hne) with hlt | hgt
    · exact h i j i.isLt j.isLt hlt hover
    · exact h j i j.isLt i.isLt hgt (overlaps_comm.1 hover)
  · intro h i j hi hj hlt hover
    obtain ⟨hc, k, hfits, hfits'⟩ := LawfulRule.overlaps_iff.1 hover
    apply h
    refine ⟨k, ⟨i, hi⟩, ⟨j, hj⟩, ?_, hfits, hfits', collide_iff_isFree.1 hc⟩
    intro heq
    exact absurd (congrArg Fin.val heq) (Nat.ne_of_lt hlt)

variable (hrules : conflict? rules = none) (hperm : rules.Perm rules')
include hrules hperm

theorem conflict?_of_perm : conflict? rules' = none := by
  rw [conflict?_eq_none_iff] at hrules ⊢
  exact (hperm.pairwise_iff fun h hover => h (overlaps_comm.1 hover)).1 hrules

variable [Ordered C]

theorem next?_of_perm (k : K) (a : Option C) : next? rules k a = next? rules' k a := by
  have hrules' := conflict?_of_perm hrules hperm
  ext l
  rw [← mem_successors_iff_next? hrules, ← mem_successors_iff_next? hrules', mem_successors,
    mem_successors]
  simp only [hperm.mem_iff]

theorem sameMoves_of_perm : SameMoves rules rules' where
  free k := next?_of_perm hrules hperm k none
  read k a _ := next?_of_perm hrules hperm k (some a)

end Table

open Table

variable {S C : Type} [Ordered S] [Ordered C]

theorem pruned_table_behaves_alike :
    (∀ m : Dfa S C, conflict? (pruned m.rules) = none ∧
      m.SameReadings { m with rules := pruned m.rules }) ∧
    (∀ m : Dpda S C, conflict? (pruned m.rules) = none ∧
      m.SameReadings { m with rules := pruned m.rules }) ∧
    ∀ m : Dtm S C, conflict? (firsts m.rules) = none ∧
      m.SameSteps { m with rules := firsts m.rules } := by
  refine ⟨fun m => ⟨conflict?_pruned m.rules, ?_⟩, fun m => ⟨conflict?_pruned m.rules, ?_⟩,
    fun m => ⟨?_, ?_⟩⟩
  · exact m.sameReadings_of_sameMoves (sameMoves_pruned m.rules)
  · exact m.sameReadings_of_sameMoves (sameMoves_pruned m.rules)
  · exact conflict?_firsts fun r _ => rfl
  · exact m.sameSteps_of_sameMoves (sameMoves_firsts m.rules)

theorem conflict?_decides_choice :
    (∀ rules : Table (FiniteRule S C), conflict? rules = none ↔ ¬ ∃ k, LeavesChoice rules k) ∧
    (∀ rules : Table (PushdownRule S C), conflict? rules = none ↔ ¬ ∃ k, LeavesChoice rules k) ∧
    (∀ rules : Table (TuringRule S C), conflict? rules = none ↔ ¬ ∃ k, LeavesChoice rules k) ∧
    (∀ (m : Dfa S C) (rules : Table (FiniteRule S C)), conflict? m.rules = none →
      m.rules.Perm rules → m.SameReadings { m with rules := rules }) ∧
    (∀ (m : Dpda S C) (rules : Table (PushdownRule S C)), conflict? m.rules = none →
      m.rules.Perm rules → m.SameReadings { m with rules := rules }) ∧
    ∀ (m : Dtm S C) (rules : Table (TuringRule S C)), conflict? m.rules = none →
      m.rules.Perm rules → m.SameSteps { m with rules := rules } := by
  refine ⟨fun _ => conflict?_eq_none_iff_leavesChoice, fun _ => conflict?_eq_none_iff_leavesChoice,
    fun _ => conflict?_eq_none_iff_leavesChoice, ?_, ?_, ?_⟩
  · intro m rules hrules hperm
    exact m.sameReadings_of_sameMoves (sameMoves_of_perm hrules hperm)
  · intro m rules hrules hperm
    exact m.sameReadings_of_sameMoves (sameMoves_of_perm hrules hperm)
  · intro m rules hrules hperm
    exact m.sameSteps_of_sameMoves (sameMoves_of_perm hrules hperm)

theorem conflict?_decides_choice_reverse :
    let m := Catalog.containsAb
    let m' := Catalog.markedPalindrome
    let m'' := Catalog.equalAbc
    (conflict? m.rules = none ∧ m.SameReadings { m with rules := m.rules.reverse }) ∧
    (conflict? m'.rules = none ∧ m'.SameReadings { m' with rules := m'.rules.reverse }) ∧
    conflict? m''.rules = none ∧ m''.SameSteps { m'' with rules := m''.rules.reverse } := by
  intro m m' m''
  obtain ⟨_, _, _, hdfa, hdpda, hdtm⟩ := conflict?_decides_choice (S := UInt32) (C := Char)
  have hm : conflict? m.rules = none := by decide
  have hm' : conflict? m'.rules = none := by decide
  have hm'' : conflict? m''.rules = none := by decide
  refine ⟨⟨hm, ?_⟩, ⟨hm', ?_⟩, hm'', ?_⟩
  · exact hdfa m m.rules.reverse hm m.rules.reverse_perm.symm
  · exact hdpda m' m'.rules.reverse hm' m'.rules.reverse_perm.symm
  · exact hdtm m'' m''.rules.reverse hm'' m''.rules.reverse_perm.symm

end TableMachines
