import TableMachines.Proofs.Analysis.Audit
import TableMachines.Proofs.Analysis.FreeCycle

/-!
The bound on the depth of the search never shows: the same search without a bound ends, and the
check answers what it finds.
-/

namespace TableMachines.Table

open Relation SortedSet

variable {R S C K : Type} [Rule R S C K] {rules : Table R}

theorem IsFreeCycle.exists_transGen {cycle : List S} (h : IsFreeCycle rules cycle) :
    ∃ s, TransGen (FreeMove rules) s s := by
  cases cycle with
  | nil => cases h
  | cons s l =>
    have hpairwise : (s :: l ++ [s]).Pairwise (TransGen (FreeMove rules)) :=
      List.isChain_iff_pairwise.1 (h.2.imp fun _ _ => TransGen.single)
    refine ⟨s, (List.pairwise_cons.1 hpairwise).1 s ?_⟩
    exact List.mem_append_right l List.mem_cons_self

variable [Ordered S]

/-- The search without a bound on its depth. -/
inductive Explores (rules : Table R) :
    List S → SortedSet S → List S → Except (List S) (SortedSet S) → Prop
  | nil (path : List S) (done : SortedSet S) : Explores rules path done [] (.ok done)
  | closes {path targets : List S} {done : SortedSet S} {t : S} :
      t ∈ path → Explores rules path done (t :: targets) (.error (path.dropWhile (· ≠ t)))
  | skips {path targets : List S} {done : SortedSet S} {t : S}
      {found : Except (List S) (SortedSet S)} :
      t ∉ path → t ∈ done → Explores rules path done targets found →
        Explores rules path done (t :: targets) found
  | fails {path targets cycle : List S} {done : SortedSet S} {t : S} :
      t ∉ path → t ∉ done →
        Explores rules (path ++ [t]) done (freeTargets rules t) (.error cycle) →
          Explores rules path done (t :: targets) (.error cycle)
  | returns {path targets : List S} {done done' : SortedSet S} {t : S}
      {found : Except (List S) (SortedSet S)} :
      t ∉ path → t ∉ done →
        Explores rules (path ++ [t]) done (freeTargets rules t) (.ok done') →
          Explores rules path (done'.insert t) targets found →
            Explores rules path done (t :: targets) found

def cycleProblem? : Except (List S) (SortedSet S) → Option (Problem (R × R) S)
  | .error cycle => some (.freeCycle cycle)
  | .ok _ => none

def visit (rules : Table R) (depth : Nat) (path : List S) (done : SortedSet S) (t : S) :
    Except (List S) (SortedSet S) :=
  if path.contains t then .error (path.dropWhile (· ≠ t))
  else if t ∈ done then .ok done
  else searchFrom rules depth path done t

variable {path targets : List S} {done : SortedSet S} {s t : S} {depth : Nat}
  {found found' : Except (List S) (SortedSet S)}

theorem Explores.unique (h : Explores rules path done targets found)
    (h' : Explores rules path done targets found') : found = found' := by
  induction h generalizing found' with
  | nil =>
    cases h'
    rfl
  | closes ht =>
    cases h' with
    | closes => rfl
    | skips ht' => exact absurd ht ht'
    | fails ht' => exact absurd ht ht'
    | returns ht' => exact absurd ht ht'
  | skips ht hd _ ih =>
    cases h' with
    | closes ht' => exact absurd ht' ht
    | skips _ _ h' => exact ih h'
    | fails _ hd' => exact absurd hd hd'
    | returns _ hd' => exact absurd hd hd'
  | fails ht hd _ ih =>
    cases h' with
    | closes ht' => exact absurd ht' ht
    | skips _ hd' => exact absurd hd' hd
    | fails _ _ h' => exact ih h'
    | returns _ _ h' => cases ih h'
  | returns ht hd _ _ ih ih' =>
    cases h' with
    | closes ht' => exact absurd ht' ht
    | skips _ hd' => exact absurd hd' hd
    | fails _ _ h' => cases ih h'
    | returns _ _ h' h'' =>
      cases ih h'
      exact ih' h''

theorem visit_eq (rules : Table R) (depth : Nat) (path : List S) :
    visit rules depth path = fun done t =>
      if t ∈ path then .error (path.dropWhile (· ≠ t))
      else if t ∈ done then .ok done
      else searchFrom rules depth path done t := by
  funext done t
  simp only [visit, List.contains_iff_mem]

theorem visit_of_mem_path (ht : t ∈ path) :
    visit rules depth path done t = .error (path.dropWhile (· ≠ t)) := by
  simp only [visit_eq, if_pos ht]

theorem visit_of_mem_done (ht : t ∉ path) (hd : t ∈ done) :
    visit rules depth path done t = .ok done := by
  simp only [visit_eq, if_neg ht, if_pos hd]

theorem visit_of_not_mem (ht : t ∉ path) (hd : t ∉ done) :
    visit rules depth path done t = searchFrom rules depth path done t := by
  simp only [visit_eq, if_neg ht, if_neg hd]

theorem searchFrom_succ (rules : Table R) (depth : Nat) (path : List S) (done : SortedSet S) (s : S) :
    searchFrom rules (depth + 1) path done s =
      ((freeTargets rules s).foldlM (visit rules depth (path ++ [s])) done).map (·.insert s) := by
  rw [visit_eq]
  rfl

theorem explores_foldlM (hdepth : rules.length + 1 ≤ depth + path.length)
    (htargets : ∀ t ∈ targets, Trail rules path t) (done : SortedSet S) :
    Explores rules path done targets (targets.foldlM (visit rules depth path) done) := by
  induction depth generalizing path targets done with
  | zero =>
    -- a path that long would repeat a state, so there is no target to search from
    cases targets with
    | nil => exact .nil path done
    | cons t targets =>
      have := (htargets t List.mem_cons_self).length_le
      omega
  | succ depth ih =>
    induction targets generalizing done with
    | nil => exact .nil path done
    | cons t targets ih' =>
      have hrest (done : SortedSet S) :
          Explores rules path done targets (targets.foldlM (visit rules (depth + 1) path) done) :=
        ih' (fun u hu => htargets u (List.mem_cons_of_mem t hu)) done
      rw [List.foldlM_cons]
      by_cases ht : t ∈ path
      · rw [visit_of_mem_path ht]
        exact .closes ht
      by_cases hd : t ∈ done
      · rw [visit_of_mem_done ht hd]
        exact .skips ht hd (hrest done)
      have hdepth' : rules.length + 1 ≤ depth + (path ++ [t]).length := by
        rw [List.length_append, List.length_singleton]
        omega
      have htrails : ∀ u ∈ freeTargets rules t, Trail rules (path ++ [t]) u := fun u hu =>
        (htargets t List.mem_cons_self).extend ht (mem_freeTargets.1 hu)
      have hbelow := ih hdepth' htrails done
      rw [visit_of_not_mem ht hd, searchFrom_succ]
      cases hfound : (freeTargets rules t).foldlM (visit rules depth (path ++ [t])) done with
      | error cycle =>
        rw [hfound] at hbelow
        exact .fails ht hd hbelow
      | ok done' =>
        rw [hfound] at hbelow
        exact .returns ht hd hbelow (hrest (done'.insert t))

theorem freeCycleProblem?_eq (rules : Table R) :
    freeCycleProblem? rules = cycleProblem?
      ((freeSources rules).toList.foldlM (visit rules (rules.length + 1) []) ∅) := by
  rw [visit_eq, freeCycleProblem?, freeCycle?]
  simp only [List.not_mem_nil, if_false]
  split <;> simp_all [cycleProblem?]

theorem exists_explores (rules : Table R) :
    ∃ found, Explores rules [] ∅ (freeSources rules).toList found ∧
      freeCycleProblem? rules = cycleProblem? found := by
  refine ⟨_, ?_, freeCycleProblem?_eq rules⟩
  apply explores_foldlM
  · exact Nat.le_refl _
  · intro s _
    exact .start rules s

structure DecidesFreeCycles (rules : Table R) : Prop where
  ends : ∃ found,
    (∀ found', Explores rules [] ∅ (freeSources rules).toList found' ↔ found' = found) ∧
      freeCycleProblem? rules = cycleProblem? found
  none_iff : freeCycleProblem? rules = none ↔ ∀ s, ¬ TransGen (FreeMove rules) s s
  some_cycle : ∀ problem, freeCycleProblem? rules = some problem →
    ∃ cycle, problem = .freeCycle cycle ∧ IsFreeCycle rules cycle

theorem freeCycleProblem?_decides_cycles (rules : Table R) : DecidesFreeCycles rules where
  ends := by
    obtain ⟨found, hfound, hproblem⟩ := exists_explores rules
    refine ⟨found, fun found' => ⟨fun h => h.unique hfound, ?_⟩, hproblem⟩
    rintro rfl
    exact hfound
  none_iff := by
    rw [freeCycleProblem?_eq_none_iff]
    constructor
    · exact acyclic_of_freeCycle?
    · intro hacyclic
      refine Option.eq_none_iff_forall_ne_some.2 fun cycle hcycle => ?_
      obtain ⟨s, hs⟩ := (isFreeCycle_of_freeCycle? hcycle).exists_transGen
      exact hacyclic s hs
  some_cycle problem hproblem := by
    obtain ⟨cycle, hcycle, rfl⟩ := Option.map_eq_some_iff.1 hproblem
    exact ⟨cycle, rfl, isFreeCycle_of_freeCycle? hcycle⟩

end TableMachines.Table
