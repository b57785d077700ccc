import TableMachines.Finite.Automata
import TableMachines.Proofs.Automaton.Basic
import TableMachines.Proofs.Table.AllMatches

namespace TableMachines.Nfa

open SortedSet Table

variable {S C : Type} [Ordered S] [Ordered C] (m : Nfa S C)

theorem leads_target {s t : S} (h : Leads (m.rules.successors none) s t) :
    t = s ∨ t ∈ m.rules.map FiniteRule.target := by
  cases h.cases_tail with
  | inl h => exact .inl h
  | inr h =>
    obtain ⟨u, _, hu⟩ := h
    obtain ⟨r, hr, _, rfl⟩ := mem_successors.1 hu
    exact .inr (List.mem_map_of_mem hr)

theorem closure?_eq (p : SortedSet S) :
    m.rules.closure? (m.rules.length + 1) p = some (m.closed p) := by
  refine saturate?_eq_saturate (m.rules.map FiniteRule.target) ?_ ?_
  · intro s hs t hst
    rcases m.leads_target hst with rfl | ht
    · exact .inl hs
    · exact .inr ht
  · rw [List.length_map]
    exact Nat.lt_succ_self _

variable {m}

theorem mem_closed {p : SortedSet S} {q : S} : q ∈ m.closed p ↔ ∃ s ∈ p, Spells m.rules s [] q :=
  mem_closure? (m.closure?_eq p)

theorem subset_closed {p : SortedSet S} {s : S} (h : s ∈ p) : s ∈ m.closed p :=
  mem_closed.2 ⟨s, h, .refl s⟩

theorem exists_spells_closed {p : SortedSet S} {w : List C} {q : S} :
    (∃ s ∈ m.closed p, Spells m.rules s w q) ↔ ∃ s ∈ p, Spells m.rules s w q := by
  constructor
  · rintro ⟨t, ht, h⟩
    obtain ⟨s, hs, hst⟩ := mem_closed.1 ht
    exact ⟨s, hs, .of_leads hst.leads h⟩
  · rintro ⟨s, hs, h⟩
    exact ⟨s, subset_closed hs, h⟩

theorem closed_closed (p : SortedSet S) : m.closed (m.closed p) = m.closed p := by
  ext q
  rw [mem_closed, exists_spells_closed, mem_closed]

theorem read_closed (p : SortedSet S) (a : C) : m.read (m.closed p) a = m.read p a := by
  rw [read, closed_closed, read]

theorem exists_spells_read {p : SortedSet S} {a : C} {w : List C} {q : S} :
    (∃ s ∈ m.read p a, Spells m.rules s w q) ↔ ∃ s ∈ p, Spells m.rules s (a :: w) q :=
  exists_spells_advance (m.closure?_eq p)

theorem mem_read {p : SortedSet S} {a : C} {q : S} :
    q ∈ m.read p a ↔ ∃ s ∈ m.closed p, ∃ r ∈ m.rules, Rule.Applies r s (some a) ∧ Rule.follow r s = q :=
  mem_advance

theorem closed_empty : m.closed ∅ = ∅ := by
  ext q
  simp [mem_closed]

theorem read_empty (a : C) : m.read ∅ a = ∅ := by
  ext q
  simp [mem_read, closed_empty]

theorem run_eq_foldl (p : SortedSet S) (w : List C) : m.run p w = w.foldl m.read p := by
  have hstuck (p : SortedSet S) (a : C) (h : p.isEmpty = true) : m.read p a = p := by
    rw [eq_empty_of_isEmpty h, read_empty]
  rw [run, feed_eq_foldlM (fun p a h => congrArg pure (hstuck p a h)), List.foldlM_pure]
  rfl

theorem run_cons (p : SortedSet S) (a : C) (w : List C) : m.run p (a :: w) = m.run (m.read p a) w := by
  rw [run_eq_foldl, run_eq_foldl, List.foldl_cons]

theorem mem_closed_run {p : SortedSet S} {w : List C} {q : S} :
    q ∈ m.closed (m.run p w) ↔ ∃ s ∈ p, Spells m.rules s w q := by
  induction w generalizing p with
  | nil => exact mem_closed
  | cons a w ih => rw [run_cons, ih, exists_spells_read]

theorem accepts_iff {w : List C} :
    m.accepts w = true ↔ ∃ q ∈ m.accept, Spells m.rules m.start w q := by
  rw [accepts, accepting, meets_iff]
  constructor
  · rintro ⟨q, hq, ha⟩
    obtain ⟨s, hs, h⟩ := mem_closed_run.1 hq
    rw [mem_singleton.1 hs] at h
    exact ⟨q, ha, h⟩
  · rintro ⟨q, ha, h⟩
    exact ⟨q, mem_closed_run.2 ⟨m.start, mem_singleton.2 rfl, h⟩, ha⟩

end TableMachines.Nfa
