import TableMachines.Proofs.Analysis.Audit
import TableMachines.Proofs.Analysis.FreeCycle
import TableMachines.Proofs.Subset.Discovery

namespace TableMachines.Nfa

open SortedSet Table

variable {S C : Type} [Ordered S] [Ordered C] {m : Nfa S C} {p q : SortedSet S} {a : C}

theorem nodup_rulesFrom (m : Nfa S C) (p : SortedSet S) : (m.rulesFrom p).Nodup := by
  refine (nodup_toList m.alphabet).map fun a b h => ?_
  exact Option.some.inj (congrArg FiniteRule.trigger h)

theorem nodup_discoveredRules (m : Nfa S C) (p : SortedSet S) : (m.discoveredRules p).Nodup := by
  refine List.nodup_flatMap.2 ⟨fun q _ => m.nodup_rulesFrom q, ?_⟩
  refine (m.nodup_discovered p).imp fun {q q'} hne r hr hr' => ?_
  obtain ⟨_, _, rfl⟩ := mem_rulesFrom.1 hr
  obtain ⟨_, _, h⟩ := mem_rulesFrom.1 hr'
  exact hne (congrArg FiniteRule.source h)

theorem filter_discoveredRules (hq : q ∈ m.discovered p) (ha : a ∈ m.alphabet) :
    (m.discoveredRules p).filter (fun r => r.source = q ∧ r.trigger = some a) =
      [⟨q, some a, m.successor q a⟩] := by
  have hnodup := (m.nodup_discoveredRules p).filter fun r => decide (r.source = q ∧ r.trigger = some a)
  refine List.perm_singleton.1 ((List.perm_ext_iff_of_nodup hnodup (List.nodup_singleton _)).2 ?_)
  intro r
  rw [List.mem_filter, mem_discoveredRules, List.mem_singleton, decide_eq_true_iff]
  constructor
  · rintro ⟨⟨q', _, b, _, rfl⟩, hsource, htrigger⟩
    cases hsource
    cases htrigger
    rfl
  · rintro rfl
    exact ⟨⟨q, hq, a, ha, rfl⟩, rfl, rfl⟩

theorem conflict?_discoveredRules (m : Nfa S C) (p : SortedSet S) :
    conflict? (m.discoveredRules p) = none := by
  refine conflict?_eq_none_iff.2 ((m.nodup_discoveredRules p).imp_of_mem ?_)
  intro r t hr ht hne hover
  obtain ⟨q, _, a, _, rfl⟩ := mem_discoveredRules.1 hr
  obtain ⟨q', _, b, _, rfl⟩ := mem_discoveredRules.1 ht
  obtain ⟨hsource, htrigger⟩ := hover
  cases show q = q' from hsource
  cases show a = b from htrigger
  exact hne rfl

theorem freeCycle?_discoveredRules (m : Nfa S C) (p : SortedSet S) :
    freeCycle? (m.discoveredRules p) = none := by
  refine freeCycle?_eq_none_of_no_free fun r hr => ?_
  obtain ⟨_, _, _, _, rfl⟩ := mem_discoveredRules.1 hr
  rfl

theorem leads_foldl (hq : q ∈ m.discovered p) {w : List C} (hw : ∀ a ∈ w, a ∈ m.alphabet) :
    Leads (targets (m.discoveredRules p)) q (w.foldl m.successor q) := by
  induction w generalizing q with
  | nil => exact .refl
  | cons a w ih =>
    obtain ⟨ha, hw⟩ := List.forall_mem_cons.1 hw
    have hstep : m.successor q a ∈ targets (m.discoveredRules p) q :=
      Table.mem_targets.2 ⟨_, mem_discoveredRules.2 ⟨q, hq, a, ha, rfl⟩, rfl, rfl⟩
    exact .head hstep (ih (successor_mem_discovered hq ha) hw)

theorem leads_of_mem_discovered (hq : q ∈ m.discovered p) :
    Leads (targets (m.discoveredRules p)) p q := by
  obtain ⟨w, hw, rfl⟩ := mem_discovered_iff.1 hq
  exact leads_foldl (m.start_mem_discovered p) hw

theorem mem_determinize_accept :
    q ∈ m.determinize.accept ↔ q ∈ m.discovered (m.closed {m.start}) ∧ ∃ s ∈ q, s ∈ m.accept := by
  rw [determinize, mem_filter, mem_ofList, meets_iff]

theorem determinize_problem? (m : Nfa S C) : m.determinize.problem? = none := by
  refine Dfa.problem?_eq_none_iff.2 ⟨?_, ?_, ?_⟩
  · exact m.conflict?_discoveredRules (m.closed {m.start})
  · exact freeCycleProblem?_eq_none_iff.2 (m.freeCycle?_discoveredRules (m.closed {m.start}))
  · refine unreachableProblem?_eq_none_iff.2 fun q hq => ?_
    exact leads_of_mem_discovered (mem_determinize_accept.1 hq).1

structure Shape (m : Nfa S C) (sets : List (SortedSet S)) (d : Dfa (SortedSet S) C) : Prop where
  ends : ∀ n, Nat.pow 2 m.rules.length + 1 ≤ n →
    m.explore n [m.closed {m.start}] {m.closed {m.start}} = sets
  nodup : sets.Nodup
  reached : ∀ q, q ∈ sets ↔ ∃ w, (∀ a ∈ w, a ∈ m.alphabet) ∧ m.closed (m.run {m.start} w) = q
  closed : ∀ q ∈ sets, m.closed q = q
  start : d.start = m.closed {m.start}
  accept : ∀ q, q ∈ d.accept ↔ q ∈ sets ∧ ∃ s ∈ q, s ∈ m.accept
  complete : ∀ q ∈ sets, ∀ a ∈ m.alphabet,
    d.rules.filter (fun r => r.source = q ∧ r.trigger = some a) = [⟨q, some a, m.successor q a⟩]
  sound : ∀ r ∈ d.rules, r.source ∈ sets ∧ (∃ a ∈ m.alphabet, r.trigger = some a) ∧ r.target ∈ sets
  problem : d.problem? = none

theorem determinize_shape (m : Nfa S C) :
    m.Shape (m.discovered (m.closed {m.start})) m.determinize where
  ends _ hn := explore_eq_discovered (m.closed {m.start}) hn
  nodup := m.nodup_discovered (m.closed {m.start})
  reached q := by simp only [mem_discovered_iff, closed_run_eq_foldl]
  closed q hq := by
    obtain ⟨w, _, rfl⟩ := mem_discovered_iff.1 hq
    rw [← closed_run_eq_foldl, closed_closed]
  start := rfl
  accept _ := mem_determinize_accept
  complete _ hq _ ha := filter_discoveredRules hq ha
  sound r hr := by
    obtain ⟨q, hq, a, ha, rfl⟩ := mem_discoveredRules.1 hr
    exact ⟨hq, ⟨a, ha, rfl⟩, successor_mem_discovered hq ha⟩
  problem := m.determinize_problem?

end TableMachines.Nfa
