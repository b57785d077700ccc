import TableMachines.Catalog.Tables
import TableMachines.Proofs.Finite.Reading
import TableMachines.Proofs.Subset.Exploration
import TableMachines.Proofs.Table.FirstMatch

namespace TableMachines.Nfa

open SortedSet Table

variable {S C : Type} [Ordered S] [Ordered C] {m : Nfa S C} {p : SortedSet S}

theorem closed_run_eq_foldl (p : SortedSet S) (w : List C) :
    m.closed (m.run p w) = w.foldl m.successor (m.closed p) := by
  induction w generalizing p with
  | nil => rfl
  | cons a w ih => rw [run_cons, ih, List.foldl_cons, successor, read_closed]

theorem next?_discovered {q : SortedSet S} (hq : q ∈ m.discovered p) {a : C} (ha : a ∈ m.alphabet) :
    next? (m.discoveredRules p) q (some a) = some (m.successor q a) := by
  apply next?_eq_some
  · exact ⟨_, mem_discoveredRules.2 ⟨q, hq, a, ha, rfl⟩, rfl, rfl⟩
  · intro r hr happ
    obtain ⟨q', _, a', _, rfl⟩ := mem_discoveredRules.1 hr
    cases happ.1
    cases happ.2
    rfl

theorem next?_foreign {q : SortedSet S} {a : C} (ha : a ∉ m.alphabet) :
    next? (m.discoveredRules p) q (some a) = none := by
  refine next?_eq_none_iff.2 fun r hr happ => ha ?_
  obtain ⟨_, _, b, hb, rfl⟩ := mem_discoveredRules.1 hr
  cases happ.1
  exact hb

theorem next?_discovered_none (q : SortedSet S) : next? (m.discoveredRules p) q none = none := by
  refine next?_eq_none_iff.2 fun r hr happ => ?_
  obtain ⟨_, _, b, _, rfl⟩ := mem_discoveredRules.1 hr
  cases happ.1

theorem determinize_settled? (q : SortedSet S) :
    m.determinize.settled? (.active q) = some (.active q) := by
  have h : m.determinize.rules.settle? m.determinize.rules.length q = some q :=
    settle?_of_none (next?_discovered_none q) _
  simp only [Dfa.settled?, h, Option.map_some]

theorem determinize_read? {q : SortedSet S} (hq : q ∈ m.discovered (m.closed {m.start})) {a : C}
    (ha : a ∈ m.alphabet) :
    m.determinize.read? (.active q) a = some (.active (m.successor q a)) := by
  have h : m.determinize.rules.next? q (some a) = some (m.successor q a) := next?_discovered hq ha
  simp [Dfa.read?, determinize_settled?, h]

theorem determinize_read?_foreign {q : SortedSet S} {a : C} (ha : a ∉ m.alphabet) :
    m.determinize.read? (.active q) a = some .stuck := by
  have h : m.determinize.rules.next? q (some a) = none := next?_foreign ha
  simp [Dfa.read?, determinize_settled?, h]

theorem determinize_run? {w : List C} (hw : ∀ a ∈ w, a ∈ m.alphabet) {q : SortedSet S}
    (hq : q ∈ m.discovered (m.closed {m.start})) :
    w.foldl m.successor q ∈ m.discovered (m.closed {m.start}) ∧
      m.determinize.run? (.active q) w = some (.active (w.foldl m.successor q)) := by
  induction w generalizing q with
  | nil => exact ⟨hq, rfl⟩
  | cons a w ih =>
    have ha : a ∈ m.alphabet := hw a List.mem_cons_self
    have hw' : ∀ b ∈ w, b ∈ m.alphabet := fun b hb => hw b (List.mem_cons_of_mem a hb)
    rw [Dfa.run?_cons, determinize_read? hq ha, Option.bind_some, List.foldl_cons]
    exact ih hw' (successor_mem_discovered hq ha)

theorem determinize_run?_foreign {w : List C} (hw : ∃ a ∈ w, a ∉ m.alphabet) {q : SortedSet S}
    (hq : q ∈ m.discovered (m.closed {m.start})) :
    m.determinize.run? (.active q) w = some .stuck := by
  induction w generalizing q with
  | nil => simp at hw
  | cons a w ih =>
    rw [Dfa.run?_cons]
    by_cases ha : a ∈ m.alphabet
    · have hw' : ∃ b ∈ w, b ∉ m.alphabet := by
        obtain ⟨b, hb, hba⟩ := hw
        rcases List.mem_cons.1 hb with rfl | hb
        · exact absurd ha hba
        · exact ⟨b, hb, hba⟩
      rw [determinize_read? hq ha, Option.bind_some]
      exact ih hw' (successor_mem_discovered hq ha)
    · rw [determinize_read?_foreign ha, Option.bind_some, Dfa.run?_stuck]

theorem determinize_accepting? {q : SortedSet S} (hq : q ∈ m.discovered (m.closed {m.start})) :
    m.determinize.accepting? (.active q) = some (q.meets m.accept) := by
  have h : q ∈ m.determinize.accept ↔ q.meets m.accept = true := by
    simp [determinize, mem_filter, mem_ofList, hq]
  simp [Dfa.accepting?, determinize_settled?, h]

theorem accepts_foreign {w : List C} (hw : ∃ a ∈ w, a ∉ m.alphabet) : m.accepts w = false := by
  obtain ⟨a, ha, hna⟩ := hw
  refine Bool.eq_false_iff.2 fun h => hna ?_
  obtain ⟨q, _, hq⟩ := accepts_iff.1 h
  exact hq.mem_alphabet a ha

theorem determinize_accepts? (m : Nfa S C) (w : List C) :
    m.determinize.accepts? w = some (m.accepts w) := by
  have hstart := m.start_mem_discovered (m.closed {m.start})
  have hbegin : m.determinize.start = m.closed {m.start} := rfl
  rw [Dfa.accepts?, hbegin]
  by_cases hw : ∀ a ∈ w, a ∈ m.alphabet
  · obtain ⟨hq, hrun⟩ := determinize_run? hw hstart
    rw [hrun, Option.bind_eq_bind, Option.bind_some, determinize_accepting? hq,
      ← closed_run_eq_foldl]
    rfl
  · have hforeign : ∃ a ∈ w, a ∉ m.alphabet := by simpa using hw
    rw [determinize_run?_foreign hforeign hstart, accepts_foreign hforeign]
    rfl

theorem determinize_simulates (m : Nfa S C) (w : List C) :
    m.determinize.accepts? w = some (m.accepts w) ∧
    ((∀ a ∈ w, a ∈ m.alphabet) →
      ∃ q, m.determinize.run? (.active m.determinize.start) w = some (.active q) ∧
        m.determinize.settled? (.active q) = some (.active (m.closed (m.run {m.start} w)))) ∧
    ((∃ a ∈ w, a ∉ m.alphabet) →
      m.determinize.run? (.active m.determinize.start) w = some .stuck ∧
        m.determinize.accepts? w = some false ∧ m.accepts w = false) := by
  have hstart := m.start_mem_discovered (m.closed {m.start})
  refine ⟨m.determinize_accepts? w, fun hw => ?_, fun hw => ?_⟩
  · refine ⟨_, (determinize_run? hw hstart).2, ?_⟩
    rw [determinize_settled?, closed_run_eq_foldl]
  · refine ⟨determinize_run?_foreign hw hstart, ?_, accepts_foreign hw⟩
    rw [determinize_accepts?, accepts_foreign hw]

theorem determinize_simulates_ab :
    let m := Catalog.abNfa
    (∃ q, m.determinize.run? (.active m.determinize.start) ['a', 'b'] = some (.active q) ∧
      m.determinize.settled? (.active q) = some (.active (m.closed (m.run {m.start} ['a', 'b'])))) ∧
    m.determinize.run? (.active m.determinize.start) ['a', 'c', 'b'] = some .stuck ∧
      m.determinize.accepts? ['a', 'c', 'b'] = some false ∧ m.accepts ['a', 'c', 'b'] = false := by
  intro m
  have hinside : ∀ a ∈ ['a', 'b'], a ∈ m.alphabet := by
    intro a ha
    rcases List.mem_pair.1 ha with rfl | rfl
    · decide
    · decide
  have houtside : ∃ a ∈ ['a', 'c', 'b'], a ∉ m.alphabet := by
    refine ⟨'c', ?_, by decide⟩
    exact List.mem_cons_of_mem 'a' List.mem_cons_self
  obtain ⟨_, h, _⟩ := determinize_simulates m ['a', 'b']
  obtain ⟨_, _, h'⟩ := determinize_simulates m ['a', 'c', 'b']
  exact ⟨h hinside, h' houtside⟩

end TableMachines.Nfa
