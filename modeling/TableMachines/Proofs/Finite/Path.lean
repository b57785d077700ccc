import TableMachines.Proofs.Finite.Closed

namespace TableMachines

variable {S C : Type}

namespace FiniteRule

open Table

inductive Path (rules : Table (FiniteRule S C)) : S → List (FiniteRule S C) → S → Prop
  | nil (s : S) : Path rules s [] s
  | cons {r : FiniteRule S C} {path : List (FiniteRule S C)} {q : S} :
      r ∈ rules → Path rules r.target path q → Path rules r.source (r :: path) q

def word (path : List (FiniteRule S C)) : List C :=
  path.filterMap FiniteRule.trigger

variable [Ordered S] [Ordered C] {rules : Table (FiniteRule S C)}

theorem mem_successors_iff {s t : S} {a : Option C} :
    t ∈ successors rules a s ↔ ⟨s, a, t⟩ ∈ rules := by
  rw [mem_successors]
  constructor
  · rintro ⟨r, hr, ⟨ha, hs⟩, rfl⟩
    cases ha
    cases hs
    exact hr
  · intro h
    exact ⟨_, h, ⟨rfl, rfl⟩, rfl⟩

theorem spells_iff_path {s q : S} {w : List C} :
    Spells rules s w q ↔ ∃ path, Path rules s path q ∧ word path = w := by
  constructor
  · intro h
    induction h with
    | refl s => exact ⟨[], .nil s, rfl⟩
    | free hst _ ih =>
      obtain ⟨path, hpath, rfl⟩ := ih
      exact ⟨_ :: path, .cons (mem_successors_iff.1 hst) hpath, rfl⟩
    | read hst _ ih =>
      obtain ⟨path, hpath, rfl⟩ := ih
      exact ⟨_ :: path, .cons (mem_successors_iff.1 hst) hpath, rfl⟩
  · rintro ⟨path, h, rfl⟩
    induction h with
    | nil s => exact .refl s
    | @cons r path q hr _ ih =>
      obtain ⟨s, _ | a, t⟩ := r
      · exact .free (mem_successors_iff.2 hr) ih
      · exact .read (mem_successors_iff.2 hr) ih

end FiniteRule

namespace Nfa

open SortedSet Table FiniteRule

variable [Ordered S] [Ordered C] {m : Nfa S C} {s : S} {a : C} {w : List C}

theorem closed_union (p t : SortedSet S) : m.closed (p ∪ t) = m.closed p ∪ m.closed t := by
  ext q
  simp only [mem_union, mem_closed, or_and_right, exists_or]

theorem read_union (p t : SortedSet S) (a : C) : m.read (p ∪ t) a = m.read p a ∪ m.read t a := by
  ext q
  simp only [mem_union, mem_read, closed_union, or_and_right, exists_or]

theorem run_union (p t : SortedSet S) (w : List C) : m.run (p ∪ t) w = m.run p w ∪ m.run t w := by
  induction w generalizing p t with
  | nil => rfl
  | cons a w ih => rw [run_cons, run_cons, run_cons, read_union, ih]

def AcceptsFrom (m : Nfa S C) (s : S) (w : List C) : Prop :=
  ∃ q ∈ m.accept, Spells m.rules s w q

theorem acceptsFrom_start : m.AcceptsFrom m.start w ↔ m.accepts w = true :=
  accepts_iff.symm

theorem acceptsFrom_iff : m.AcceptsFrom s w ↔
    (w = [] ∧ s ∈ m.accept) ∨ (∃ t, ⟨s, none, t⟩ ∈ m.rules ∧ m.AcceptsFrom t w) ∨
      ∃ a v t, w = a :: v ∧ ⟨s, some a, t⟩ ∈ m.rules ∧ m.AcceptsFrom t v := by
  constructor
  · rintro ⟨q, hq, h⟩
    cases h with
    | refl => exact .inl ⟨rfl, hq⟩
    | @free _ t _ _ ht h => exact .inr (.inl ⟨t, mem_successors_iff.1 ht, q, hq, h⟩)
    | @read _ t _ a v ht h => exact .inr (.inr ⟨a, v, t, rfl, mem_successors_iff.1 ht, q, hq, h⟩)
  · rintro (⟨rfl, hs⟩ | ⟨t, ht, q, hq, h⟩ | ⟨a, v, t, rfl, ht, q, hq, h⟩)
    · exact ⟨s, hs, .refl s⟩
    · exact ⟨q, hq, .free (mem_successors_iff.2 ht) h⟩
    · exact ⟨q, hq, .read (mem_successors_iff.2 ht) h⟩

theorem acceptsFrom_of_free (hread : ∀ a t, ⟨s, some a, t⟩ ∉ m.rules) (hs : s ∉ m.accept) :
    m.AcceptsFrom s w ↔ ∃ t, ⟨s, none, t⟩ ∈ m.rules ∧ m.AcceptsFrom t w := by
  rw [acceptsFrom_iff]
  simp [hread, hs]

theorem acceptsFrom_nil (hfree : ∀ t, ⟨s, none, t⟩ ∉ m.rules) :
    m.AcceptsFrom s [] ↔ s ∈ m.accept := by
  rw [acceptsFrom_iff]
  simp [hfree]

theorem acceptsFrom_cons (hfree : ∀ t, ⟨s, none, t⟩ ∉ m.rules) :
    m.AcceptsFrom s (a :: w) ↔ ∃ t, ⟨s, some a, t⟩ ∈ m.rules ∧ m.AcceptsFrom t w := by
  rw [acceptsFrom_iff]
  simp [hfree]

theorem reads_along_paths (m : Nfa S C) (w : List C) :
    (∀ (p : SortedSet S) (q : S),
      q ∈ m.closed (m.run p w) ↔ ∃ s ∈ p, ∃ path, Path m.rules s path q ∧ word path = w) ∧
    (m.accepts w = true ↔ ∃ q ∈ m.accept, ∃ path, Path m.rules m.start path q ∧ word path = w) ∧
    (∀ p t : SortedSet S, m.run (p ∪ t) w = m.run p w ∪ m.run t w ∧
      m.closed (m.run (p ∪ t) w) = m.closed (m.run p w) ∪ m.closed (m.run t w)) := by
  refine ⟨fun p q => ?_, ?_, fun p t => ?_⟩
  · simp only [mem_closed_run, spells_iff_path]
  · simp only [accepts_iff, spells_iff_path]
  · rw [run_union, closed_union]
    exact ⟨rfl, rfl⟩

end Nfa

end TableMachines
