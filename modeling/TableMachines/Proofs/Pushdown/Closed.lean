import TableMachines.Proofs.Automaton.Basic
import TableMachines.Proofs.Table.AllMatches
import TableMachines.Pushdown.Automata

namespace TableMachines.Npda

open SortedSet Table

variable {S C : Type} [Ordered S] [Ordered C] {m : Npda S C} {bound : Nat}
  {p q r : SortedSet (PushdownConfig S C)}

theorem mem_closed? (h : m.closed? bound p = some r) {k : PushdownConfig S C} :
    k ∈ r ↔ ∃ k₀ ∈ p, Spells m.rules k₀ [] k :=
  mem_closure? h

theorem closed?_empty (bound : Nat) : m.closed? bound ∅ = some ∅ := by
  cases bound <;> rfl

theorem read?_eq_some {a : C} (h : m.closed? bound p = some r) :
    m.read? bound p a = some (m.rules.advance (some a) r) := by
  rw [read?, h]
  rfl

theorem read?_empty (a : C) : m.read? bound ∅ a = some ∅ := by
  rw [read?_eq_some (closed?_empty bound)]
  rfl

theorem run?_cons (p : SortedSet (PushdownConfig S C)) (a : C) (w : List C) :
    m.run? bound p (a :: w) = (m.read? bound p a).bind (m.run? bound · w) := by
  have hstuck (p : SortedSet (PushdownConfig S C)) (a : C) (h : p.isEmpty = true) :
      m.read? bound p a = some p := by
    rw [eq_empty_of_isEmpty h, read?_empty]
  simp only [run?, feed_eq_foldlM hstuck, List.foldlM_cons]
  rfl

theorem run?_cons_eq_some {a : C} {w : List C} (h : m.run? bound p (a :: w) = some q) :
    ∃ r, m.closed? bound p = some r ∧ m.run? bound (m.rules.advance (some a) r) w = some q := by
  rw [run?_cons] at h
  cases hr : m.closed? bound p with
  | none => simp [read?, hr] at h
  | some r =>
    rw [read?_eq_some hr] at h
    exact ⟨r, rfl, h⟩

theorem mem_closed?_run? {w : List C} (hq : m.run? bound p w = some q)
    (hr : m.closed? bound q = some r) {k : PushdownConfig S C} :
    k ∈ r ↔ ∃ k₀ ∈ p, Spells m.rules k₀ w k := by
  induction w generalizing p with
  | nil =>
    cases hq
    exact mem_closed? hr
  | cons a w ih =>
    obtain ⟨p', hp', hq⟩ := run?_cons_eq_some hq
    rw [ih hq, exists_spells_advance hp']

theorem exists_closed?_run? {w : List C}
    (h : ∀ u, u <+: w → {k | ∃ k₀ ∈ p, Spells m.rules k₀ u k}.Finite) :
    ∃ q r n, ∀ bound, n ≤ bound → m.run? bound p w = some q ∧ m.closed? bound q = some r := by
  induction w generalizing p with
  | nil =>
    obtain ⟨r, n, hr⟩ := exists_closure? (h [] List.nil_prefix)
    exact ⟨p, r, n, fun bound hn => ⟨rfl, hr bound hn⟩⟩
  | cons a w ih =>
    obtain ⟨p', n₁, hp'⟩ := exists_closure? (h [] List.nil_prefix)
    have h' : ∀ u, u <+: w →
        {k | ∃ k₀ ∈ m.rules.advance (some a) p', Spells m.rules k₀ u k}.Finite := by
      intro u hu
      simp only [exists_spells_advance (hp' n₁ le_rfl)]
      exact h (a :: u) (List.cons_prefix_cons.2 ⟨rfl, hu⟩)
    obtain ⟨q, r, n₂, hn₂⟩ := ih h'
    refine ⟨q, r, max n₁ n₂, fun bound hn => ?_⟩
    obtain ⟨hq, hr⟩ := hn₂ bound (by omega)
    refine ⟨?_, hr⟩
    rw [run?_cons, read?_eq_some (hp' bound (by omega))]
    exact hq

theorem finite_of_closed? {w : List C} (hq : m.run? bound p w = some q)
    (hr : m.closed? bound q = some r) : {k | ∃ k₀ ∈ p, Spells m.rules k₀ w k}.Finite := by
  refine r.toList.finite_toSet.subset fun k hk => ?_
  exact (mem_closed?_run? hq hr).2 hk

theorem accepting?_eq (h : m.closed? bound p = some r) :
    m.accepting? bound p = some ((r.toList.filterMap (·.control.state?)).any (· ∈ m.accept)) := by
  rw [accepting?, h]
  rfl

theorem any_accept_iff (m : Npda S C) (r : SortedSet (PushdownConfig S C)) :
    (r.toList.filterMap (·.control.state?)).any (· ∈ m.accept) = true ↔
      ∃ s ∈ m.accept, ∃ stack, (⟨.active s, stack⟩ : PushdownConfig S C) ∈ r := by
  rw [List.any_eq_true]
  constructor
  · rintro ⟨s, hs, ha⟩
    obtain ⟨⟨t | _, stack⟩, hk, hks⟩ := List.mem_filterMap.1 hs
    · cases hks
      exact ⟨s, by simpa using ha, stack, hk⟩
    · cases hks
  · rintro ⟨s, ha, stack, hk⟩
    exact ⟨s, List.mem_filterMap.2 ⟨_, hk, rfl⟩, by simpa using ha⟩

theorem startConfig_spells_iff {u : List C} {k : PushdownConfig S C} :
    (∃ k₀ ∈ ({m.startConfig} : SortedSet (PushdownConfig S C)), Spells m.rules k₀ u k) ↔
      Spells m.rules m.startConfig u k := by
  simp only [mem_singleton, exists_eq_left]

theorem exists_accepts?_of_run? {w : List C} {n : Nat}
    (h : ∀ bound, n ≤ bound →
      m.run? bound {m.startConfig} w = some q ∧ m.closed? bound q = some r) :
    ∃ b, (∀ bound, n ≤ bound → m.accepts? bound w = some b) ∧
      (b = true ↔ ∃ s ∈ m.accept, ∃ stack, Spells m.rules m.startConfig w ⟨.active s, stack⟩) := by
  refine ⟨_, fun bound hb => ?_, (any_accept_iff m r).trans ?_⟩
  · rw [accepts?, (h bound hb).1]
    exact accepting?_eq (h bound hb).2
  · simp only [mem_closed?_run? (h n le_rfl).1 (h n le_rfl).2, startConfig_spells_iff]

theorem exists_accepts? {w : List C}
    (h : ∀ u, u <+: w → {k | Spells m.rules m.startConfig u k}.Finite) :
    ∃ b n, (∀ bound, n ≤ bound → m.accepts? bound w = some b) ∧
      (b = true ↔ ∃ s ∈ m.accept, ∃ stack, Spells m.rules m.startConfig w ⟨.active s, stack⟩) := by
  simp only [← startConfig_spells_iff] at h
  obtain ⟨q, r, n, hn⟩ := exists_closed?_run? h
  obtain ⟨b, hb, hiff⟩ := exists_accepts?_of_run? hn
  exact ⟨b, n, hb, hiff⟩

end TableMachines.Npda
