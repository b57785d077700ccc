import TableMachines.Proofs.Finite.Agreement
import TableMachines.Proofs.Subset.Shape

/-!
The second of two subset constructions finds the singletons of the sets that the first one found. The
two searches run in lockstep, since no rule of the first result is a free move and each of its sets
has one successor on each symbol.
-/

namespace TableMachines

open SortedSet Table

variable {S T C : Type}

def FiniteRule.rename (f : S → T) (r : FiniteRule S C) : FiniteRule T C :=
  ⟨f r.source, r.trigger, f r.target⟩

attribute [ext] Dfa

def Dfa.rename [Ordered S] [Ordered T] (f : S → T) (m : Dfa S C) : Dfa T C :=
  ⟨f m.start, m.accept.image f, m.rules.map (.rename f)⟩

theorem SortedSet.singleton_injective [Ordered S] :
    Function.Injective fun s : S => ({s} : SortedSet S) := by
  intro s t h
  change ({s} : SortedSet S) = {t} at h
  rw [← mem_singleton, ← h, mem_singleton]

namespace Nfa

variable [Ordered S] [Ordered T] [Ordered C] {m : Nfa S C} {m' : Nfa T C} {p q : SortedSet S}

theorem closed_of_no_free (h : ∀ r ∈ m.rules, r.trigger ≠ none) (p : SortedSet S) :
    m.closed p = p := by
  have hnone (s : S) : successors m.rules none s = [] := by
    apply List.eq_nil_iff_forall_not_mem.2
    intro t ht
    obtain ⟨r, hr, happ, _⟩ := mem_successors.1 ht
    exact h r hr happ.1
  ext t
  rw [mem_closed]
  constructor
  · rintro ⟨s, hs, hst⟩
    rcases hst.leads.cases_head with rfl | ⟨u, hu, _⟩
    · exact hs
    · rw [hnone] at hu
      exact absurd hu List.not_mem_nil
  · intro ht
    exact ⟨t, ht, .refl t⟩

theorem explore_map {f : SortedSet S → SortedSet T} (hf : Function.Injective f)
    {sets : List (SortedSet S)} (hclosed : ∀ q ∈ sets, ∀ r ∈ m.rulesFrom q, r.target ∈ sets)
    (hrules : ∀ q ∈ sets, m'.rulesFrom (f q) = (m.rulesFrom q).map (.rename f)) (n : Nat)
    {queue : List (SortedSet S)} (hqueue : ∀ q ∈ queue, q ∈ sets) {seen : Std.TreeSet (SortedSet S)}
    {seen' : Std.TreeSet (SortedSet T)} (hseen : ∀ q, f q ∈ seen' ↔ q ∈ seen) :
    m'.explore n (queue.map f) seen' = (m.explore n queue seen).map f := by
  induction n generalizing queue seen seen' with
  | zero => rfl
  | succ n ih =>
    cases queue with
    | nil => rfl
    | cons p queue =>
      obtain ⟨hp, hqueue⟩ := List.forall_mem_cons.1 hqueue
      let targets := (m.rulesFrom p).map FiniteRule.target
      have htargets : (m'.rulesFrom (f p)).map FiniteRule.target = targets.map f := by
        rw [hrules p hp, List.map_map, List.map_map]
        rfl
      have hfound : (m'.expansion (f p) seen').1 = (m.expansion p seen).1.map f := by
        rw [expansion, htargets, fresh_map hf targets hseen]
        rfl
      have hseen' : ∀ q, f q ∈ (m'.expansion (f p) seen').2 ↔ q ∈ (m.expansion p seen).2 := by
        intro q
        rw [expansion, expansion, htargets, mem_fresh_snd, mem_fresh_snd, hseen,
          List.mem_map_of_injective hf]
      have hqueue' : ∀ q ∈ queue ++ (m.expansion p seen).1, q ∈ sets := by
        apply List.forall_mem_append.2 ⟨hqueue, ?_⟩
        intro q hq
        obtain ⟨r, hr, rfl⟩ := List.mem_map.1 (mem_fresh_fst.1 hq).1
        exact hclosed p hp r hr
      rw [List.map_cons, explore_cons, explore_cons, List.map_cons, hfound, ← List.map_append,
        ih hqueue' hseen']

theorem discovered_map {f : SortedSet S → SortedSet T} (hf : Function.Injective f)
    (hrules : ∀ q ∈ m.discovered p, m'.rulesFrom (f q) = (m.rulesFrom q).map (.rename f)) :
    m'.discovered (f p) = (m.discovered p).map f := by
  -- the two searches are bounded differently, so both are given the larger bound
  let n := max (Nat.pow 2 m.rules.length + 1) (Nat.pow 2 m'.rules.length + 1)
  have hm : m.explore n [p] {p} = m.discovered p := explore_eq_discovered p (le_max_left _ _)
  have hm' : m'.explore n [f p] {f p} = m'.discovered (f p) :=
    explore_eq_discovered (f p) (le_max_right _ _)
  have hclosed : ∀ q ∈ m.discovered p, ∀ r ∈ m.rulesFrom q, r.target ∈ m.discovered p := by
    intro q hq r hr
    obtain ⟨a, ha, rfl⟩ := mem_rulesFrom.1 hr
    exact successor_mem_discovered hq ha
  have hqueue : ∀ q ∈ [p], q ∈ m.discovered p := by
    intro q hq
    rw [List.mem_singleton.1 hq]
    exact m.start_mem_discovered p
  have hseen : ∀ q, f q ∈ ({f p} : Std.TreeSet (SortedSet T)) ↔
      q ∈ ({p} : Std.TreeSet (SortedSet S)) := by
    intro q
    change f q ∈ Std.TreeSet.insert ∅ (f p) ↔ q ∈ Std.TreeSet.insert ∅ p
    simp only [mem_insertTree, hf.eq_iff, Std.TreeSet.not_mem_emptyc]
  rw [← hm, ← hm']
  exact explore_map hf hclosed hrules n hqueue hseen

theorem rules_eq_discoveredRules (m : Nfa S C) :
    m.determinize.rules = m.discoveredRules (m.closed {m.start}) := rfl

theorem determinize_closed (m : Nfa S C) (p : SortedSet (SortedSet S)) :
    m.determinize.toNfa.closed p = p := by
  apply closed_of_no_free
  intro r hr
  obtain ⟨_, _, _, _, rfl⟩ := mem_discoveredRules.1 hr
  exact Option.some_ne_none _

theorem determinize_alphabet (m : Nfa S C) : m.determinize.toNfa.alphabet = m.alphabet := by
  ext a
  rw [Nfa.alphabet, Table.mem_alphabet]
  constructor
  · rintro ⟨r, hr, htrigger⟩
    obtain ⟨_, _, b, hb, rfl⟩ := mem_discoveredRules.1 hr
    cases htrigger
    exact hb
  · intro ha
    have hstart := m.start_mem_discovered (m.closed {m.start})
    exact ⟨_, mem_discoveredRules.2 ⟨_, hstart, a, ha, rfl⟩, rfl⟩

theorem determinize_successor (hq : q ∈ m.discovered (m.closed {m.start})) {a : C}
    (ha : a ∈ m.alphabet) : m.determinize.toNfa.successor {q} a = {m.successor q a} := by
  rw [successor, determinize_closed]
  ext t
  rw [mem_read, determinize_closed, mem_singleton]
  simp only [mem_singleton, exists_eq_left]
  constructor
  · rintro ⟨r, hr, happ, rfl⟩
    obtain ⟨_, _, _, _, rfl⟩ := mem_discoveredRules.1 hr
    cases happ.1
    cases happ.2
    rfl
  · rintro rfl
    exact ⟨_, mem_discoveredRules.2 ⟨q, hq, a, ha, rfl⟩, ⟨rfl, rfl⟩, rfl⟩

theorem determinize_rulesFrom (hq : q ∈ m.discovered (m.closed {m.start})) :
    m.determinize.toNfa.rulesFrom {q} = (m.rulesFrom q).map (.rename fun p => {p}) := by
  rw [rulesFrom, rulesFrom, determinize_alphabet, List.map_map]
  apply List.map_congr_left
  intro a ha
  rw [determinize_successor hq ha]
  rfl

theorem determinize_discovered (m : Nfa S C) :
    m.determinize.toNfa.discovered {m.determinize.toNfa.start} =
      (m.discovered (m.closed {m.start})).map fun p => {p} := by
  apply discovered_map singleton_injective
  intro q hq
  exact determinize_rulesFrom hq

theorem determinize_accept (m : Nfa S C) :
    m.determinize.toNfa.determinize.accept = m.determinize.accept.image fun p => {p} := by
  ext p
  rw [mem_determinize_accept, mem_image, determinize_closed, determinize_discovered, List.mem_map]
  constructor
  · rintro ⟨⟨q, _, rfl⟩, t, ht, hacc⟩
    rw [mem_singleton.1 ht] at hacc
    exact ⟨q, hacc, rfl⟩
  · rintro ⟨q, hacc, rfl⟩
    exact ⟨⟨q, (mem_determinize_accept.1 hacc).1, rfl⟩, q, mem_singleton.2 rfl, hacc⟩

theorem determinize_rules (m : Nfa S C) :
    m.determinize.toNfa.determinize.rules = m.determinize.rules.map (.rename fun p => {p}) := by
  rw [rules_eq_discoveredRules, determinize_closed, discoveredRules, determinize_discovered,
    List.flatMap_map, rules_eq_discoveredRules, discoveredRules, List.map_flatMap]
  apply List.flatMap_congr
  intro q hq
  exact determinize_rulesFrom hq

theorem determinize_determinize (m : Nfa S C) :
    m.determinize.toNfa.determinize = m.determinize.rename fun p => {p} := by
  apply Dfa.ext
  · exact m.determinize_closed {m.determinize.start}
  · exact m.determinize_accept
  · exact m.determinize_rules

end Nfa

end TableMachines
