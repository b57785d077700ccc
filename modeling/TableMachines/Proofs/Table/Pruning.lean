import TableMachines.Proofs.Analysis.Audit
import TableMachines.Proofs.Table.FirstMatch

/-!
A table without the rules that first match never follows: those that come after one for the same
place and trigger, and those that read a symbol where a free move applies. What is left has no
conflicts and makes the same moves.
-/

namespace TableMachines.Table

open PlacedRule

variable {R S C K P : Type} [Rule R S C K] [PlacedRule R S C K P] {rules : Table R}
  {earlier : List R} {r t : R} {k : K} {a : Option C}

theorem conflict?_eq_none_of_pairwise
    (h : rules.Pairwise fun r t => ¬ (place r = place t ∧ Rule.trigger r = Rule.trigger t))
    (hfree : ∀ r ∈ rules, Rule.isFree r = true → ∀ t ∈ rules, place r = place t →
      Rule.isFree t = true) :
    conflict? rules = none := by
  have htrigger : ∀ r ∈ rules, Rule.trigger r = none → ∀ t ∈ rules, place r = place t →
      Rule.trigger t = none := by
    intro r hr htr t ht hp
    apply Option.isNone_iff_eq_none.1
    exact hfree r hr (Option.isNone_iff_eq_none.2 htr) t ht hp
  rw [conflict?_eq_none_iff]
  apply h.imp_of_mem
  intro r t hr ht hne hover
  obtain ⟨hp, hc⟩ := overlaps_iff_place.1 hover
  apply hne
  refine ⟨hp, ?_⟩
  rcases collide_iff.1 hc with htr | htr | htr
  · rw [htr, htrigger r hr htr t ht hp]
  · rw [htr, htrigger t ht htr r hr hp.symm]
  · exact htr

theorem Final.place_ne (hfinal : Final rules k) (happ : Rule.Applies r k a) :
    ∀ t ∈ rules, Rule.isFree t = true → place t ≠ place r := by
  intro t ht hfree hp
  apply hfinal t ht
  refine ⟨Option.isNone_iff_eq_none.1 hfree, fits_iff.2 ?_⟩
  rw [hp]
  exact fits_iff.1 happ.2

variable [DecidableEq P] [Ordered C]

theorem ruleFor?_filter {p : R → Bool} (h : ∀ r ∈ rules, Rule.Applies r k a → p r = true) :
    ruleFor? (rules.filter p) k a = ruleFor? rules k a := by
  unfold ruleFor?
  induction rules with
  | nil => rfl
  | cons r rules ih =>
    have hrest := ih fun t ht => h t (List.mem_cons_of_mem r ht)
    by_cases happ : Rule.Applies r k a
    · simp [h r List.mem_cons_self happ, happ]
    · by_cases hp : p r = true
      · simpa [hp, happ] using hrest
      · simpa [hp, happ] using hrest

/-- The first argument holds the rules that come before the table. -/
def firstsAfter (earlier : List R) : Table R → Table R
  | [] => []
  | r :: rules =>
    if ∃ t ∈ earlier, place t = place r ∧ Rule.trigger t = Rule.trigger r then
      firstsAfter (r :: earlier) rules
    else r :: firstsAfter (r :: earlier) rules

def firsts (rules : Table R) : Table R :=
  firstsAfter [] rules

/-- The first rules for each place and trigger, without those that read a symbol in a place where
some free move of the table applies. -/
def pruned (rules : Table R) : Table R :=
  (firsts rules).filter fun r =>
    Rule.isFree r || decide (∀ t ∈ rules, Rule.isFree t = true → place t ≠ place r)

theorem mem_of_mem_firstsAfter (h : r ∈ firstsAfter earlier rules) : r ∈ rules := by
  induction rules generalizing earlier with
  | nil => exact h
  | cons t rules ih =>
    unfold firstsAfter at h
    split at h
    · exact List.mem_cons_of_mem t (ih h)
    · rcases List.mem_cons.1 h with rfl | h
      · exact List.mem_cons_self
      · exact List.mem_cons_of_mem t (ih h)

theorem not_mem_firstsAfter (ht : t ∈ earlier) (hp : place t = place r)
    (htr : Rule.trigger t = Rule.trigger r) : r ∉ firstsAfter earlier rules := by
  induction rules generalizing earlier with
  | nil => exact List.not_mem_nil
  | cons u rules ih =>
    have hrest : r ∉ firstsAfter (u :: earlier) rules := ih (List.mem_cons_of_mem u ht)
    unfold firstsAfter
    split
    · exact hrest
    · next hu =>
      intro hr
      rcases List.mem_cons.1 hr with rfl | hr
      · exact hu ⟨t, ht, hp, htr⟩
      · exact hrest hr

theorem pairwise_firstsAfter (earlier : List R) (rules : Table R) :
    (firstsAfter earlier rules).Pairwise fun r t =>
      ¬ (place r = place t ∧ Rule.trigger r = Rule.trigger t) := by
  induction rules generalizing earlier with
  | nil => exact .nil
  | cons r rules ih =>
    unfold firstsAfter
    split
    · exact ih (r :: earlier)
    · refine List.pairwise_cons.2 ⟨?_, ih (r :: earlier)⟩
      intro t ht ⟨hp, htr⟩
      exact not_mem_firstsAfter List.mem_cons_self hp htr ht

theorem ruleFor?_firstsAfter (h : ∀ t ∈ earlier, ¬ Rule.Applies t k a) :
    ruleFor? (firstsAfter earlier rules) k a = ruleFor? rules k a := by
  unfold ruleFor?
  induction rules generalizing earlier with
  | nil => rfl
  | cons r rules ih =>
    by_cases happ : Rule.Applies r k a
    · -- an earlier rule for the same place and trigger would apply too
      have hnew : ¬ ∃ t ∈ earlier, place t = place r ∧ Rule.trigger t = Rule.trigger r := by
        rintro ⟨t, ht, hp, htr⟩
        exact h t ht ((applies_iff hp htr k a).2 happ)
      rw [firstsAfter, if_neg hnew]
      simp [happ]
    · have hrest := @ih (r :: earlier) (by simpa [happ] using h)
      unfold firstsAfter
      split
      · simpa [happ] using hrest
      · simpa [happ] using hrest

theorem next?_firsts (rules : Table R) (k : K) (a : Option C) :
    next? (firsts rules) k a = next? rules k a := by
  have hrule : ruleFor? (firsts rules) k a = ruleFor? rules k a :=
    ruleFor?_firstsAfter (by simp)
  rw [next?, hrule, next?]

theorem sameMoves_firsts (rules : Table R) : SameMoves rules (firsts rules) where
  free k := (next?_firsts rules k none).symm
  read k a _ := (next?_firsts rules k (some a)).symm

theorem next?_pruned (h : a = none ∨ Final rules k) :
    next? (pruned rules) k a = next? rules k a := by
  have hkeep : ∀ r ∈ firsts rules, Rule.Applies r k a → (Rule.isFree r ||
      decide (∀ t ∈ rules, Rule.isFree t = true → place t ≠ place r)) = true := by
    intro r _ happ
    rcases h with ha | hfinal
    · simp [Rule.isFree, happ.1, ha]
    · simp only [Bool.or_eq_true, decide_eq_true_iff]
      exact .inr (hfinal.place_ne happ)
  rw [← next?_firsts rules, next?, pruned, ruleFor?_filter hkeep, next?]

theorem sameMoves_pruned (rules : Table R) : SameMoves rules (pruned rules) where
  free _ := (next?_pruned (.inl rfl)).symm
  read _ _ hfinal := (next?_pruned (.inr hfinal)).symm

theorem conflict?_firsts (h : ∀ r ∈ rules, Rule.isFree r = false) :
    conflict? (firsts rules) = none := by
  apply conflict?_eq_none_of_pairwise (pairwise_firstsAfter [] rules)
  intro r hr hfree
  rw [h r (mem_of_mem_firstsAfter hr)] at hfree
  cases hfree

theorem conflict?_pruned (rules : Table R) : conflict? (pruned rules) = none := by
  apply conflict?_eq_none_of_pairwise ((pairwise_firstsAfter [] rules).filter _)
  intro r hr hfree t ht hp
  have hrules : r ∈ rules := mem_of_mem_firstsAfter (List.mem_filter.1 hr).1
  have hkept := (List.mem_filter.1 ht).2
  simp only [Bool.or_eq_true, decide_eq_true_iff] at hkept
  rcases hkept with hkept | hkept
  · exact hkept
  · exact absurd hp (hkept r hrules hfree)

end TableMachines.Table
