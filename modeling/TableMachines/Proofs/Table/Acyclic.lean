import Mathlib.Data.Set.Card
import TableMachines.Proofs.Analysis.FreeCycle
import TableMachines.Proofs.Rule
import TableMachines.Proofs.Table.Closure

namespace TableMachines.Table

open Relation SortedSet

variable {R S C K : Type} [Rule R S C K] {rules : Table R} {s t : S} {k l : K}

def freeAhead (rules : Table R) (s : S) : Set S :=
  {t | TransGen (FreeMove rules) s t}

theorem freeAhead_subset (rules : Table R) (s : S) :
    freeAhead rules s ⊆ {t | t ∈ rules.map Rule.target} := by
  intro t ht
  obtain ⟨_, _, r, hr, _, _, rfl⟩ := TransGen.tail'_iff.1 ht
  exact List.mem_map_of_mem hr

theorem finite_freeAhead (rules : Table R) (s : S) : (freeAhead rules s).Finite :=
  (List.finite_toSet _).subset (freeAhead_subset rules s)

theorem ncard_freeAhead_le [DecidableEq S] (rules : Table R) (s : S) :
    (freeAhead rules s).ncard ≤ rules.length := by
  have hsub : freeAhead rules s ⊆ (rules.map Rule.target).toFinset := by
    intro t ht
    exact List.mem_toFinset.2 (freeAhead_subset rules s ht)
  have hcard := Set.ncard_le_ncard hsub
  rw [Set.ncard_coe_finset] at hcard
  have := List.toFinset_card_le (rules.map Rule.target)
  rw [List.length_map] at this
  omega

variable [Ordered S]

theorem ncard_freeAhead_lt (hcycle : freeCycle? rules = none) (h : FreeMove rules s t) :
    (freeAhead rules t).ncard < (freeAhead rules s).ncard := by
  apply Set.ncard_lt_ncard _ (finite_freeAhead rules s)
  refine ⟨fun u hu => .head h hu, fun hsub => ?_⟩
  exact acyclic_of_freeCycle? hcycle t (hsub (.single h))

variable [LawfulRule R S C K]

noncomputable def freeRank (rules : Table R) (k : K) : Nat :=
  (LawfulRule.state? R k).elim 0 fun s => (freeAhead rules s).ncard

theorem freeRank_le (rules : Table R) (k : K) : freeRank rules k ≤ rules.length := by
  rw [freeRank]
  cases LawfulRule.state? R k with
  | none => exact Nat.zero_le _
  | some s => exact ncard_freeAhead_le rules s

variable [Ordered C]

theorem freeRank_lt (hcycle : freeCycle? rules = none) (hl : l ∈ successors rules none k) :
    freeRank rules l < freeRank rules k := by
  obtain ⟨r, hr, ⟨htrigger, hfits⟩, rfl⟩ := mem_successors.1 hl
  have hmove : FreeMove rules (Rule.source r) (Rule.target r) := by
    refine ⟨r, hr, ?_, rfl, rfl⟩
    rw [Rule.isFree, htrigger]
    rfl
  rw [freeRank, freeRank, LawfulRule.state?_follow, LawfulRule.state?_of_fits hfits]
  exact ncard_freeAhead_lt hcycle hmove

theorem exists_closesTo_of_freeCycle? [Ordered K] (hcycle : freeCycle? rules = none)
    (ks : SortedSet K) : ∃ ls, ClosesTo rules ks ls := by
  obtain ⟨ls, hls⟩ := exists_saturate?_of_rank (fun k l => freeRank_lt hcycle) fun k (_ : k ∈ ks) =>
    Nat.lt_succ_of_le (freeRank_le rules k)
  exact ⟨ls, rules.length + 1, hls⟩

end TableMachines.Table
