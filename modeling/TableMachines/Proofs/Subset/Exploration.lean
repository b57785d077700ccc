import Mathlib.Data.List.Sublists
import TableMachines.Proofs.Finite.Closed
import TableMachines.Subset.Event

namespace TableMachines.Nfa

open SortedSet Table

variable {S C : Type} [Ordered S] (m : Nfa S C)

def targetSets : List (SortedSet S) :=
  (m.rules.map FiniteRule.target).sublists.map ofList

theorem length_targetSets : m.targetSets.length = Nat.pow 2 m.rules.length := by
  rw [targetSets, List.length_map, List.length_sublists, List.length_map]
  rfl

theorem mem_targetSets {p : SortedSet S} (h : ∀ s ∈ p, s ∈ m.rules.map FiniteRule.target) :
    p ∈ m.targetSets := by
  refine List.mem_map.2 ⟨(m.rules.map FiniteRule.target).filter (· ∈ p), ?_, ?_⟩
  · exact List.mem_sublists.2 List.filter_sublist
  · ext s
    rw [mem_ofList, List.mem_filter, decide_eq_true_iff]
    exact ⟨fun hs => hs.2, fun hs => ⟨h s hs, hs⟩⟩

variable [Ordered C]

theorem successor_mem_targetSets (p : SortedSet S) (a : C) : m.successor p a ∈ m.targetSets := by
  apply mem_targetSets
  intro t ht
  obtain ⟨s, hs, hst⟩ := mem_closed.1 ht
  obtain ⟨_, _, r, hr, _, rfl⟩ := mem_read.1 hs
  rcases m.leads_target hst.leads with rfl | ht
  · exact List.mem_map_of_mem hr
  · exact ht

def expansion (p : SortedSet S) (seen : Std.TreeSet (SortedSet S)) :
    List (SortedSet S) × Std.TreeSet (SortedSet S) :=
  fresh ((m.rulesFrom p).map FiniteRule.target) seen

theorem explore_cons (n : Nat) (p : SortedSet S) (queue : List (SortedSet S))
    (seen : Std.TreeSet (SortedSet S)) :
    m.explore (n + 1) (p :: queue) seen =
      p :: m.explore n (queue ++ (m.expansion p seen).1) (m.expansion p seen).2 := rfl

variable {m} {p q : SortedSet S} {seen : Std.TreeSet (SortedSet S)}

theorem mem_rulesFrom {r : FiniteRule (SortedSet S) C} :
    r ∈ m.rulesFrom p ↔ ∃ a ∈ m.alphabet, r = ⟨p, some a, m.successor p a⟩ := by
  simp [rulesFrom, mem_toList, eq_comm]

theorem mem_targets :
    q ∈ (m.rulesFrom p).map FiniteRule.target ↔ ∃ a ∈ m.alphabet, m.successor p a = q := by
  simp [rulesFrom, mem_toList]

theorem successor_mem_expansion {a : C} (ha : a ∈ m.alphabet) (h : m.successor p a ∉ seen) :
    m.successor p a ∈ (m.expansion p seen).1 :=
  mem_fresh_fst.2 ⟨mem_targets.2 ⟨a, ha, rfl⟩, h⟩

theorem mem_expansion_of_seen_later (hq : q ∈ (m.expansion p seen).2) (h : q ∉ seen) :
    q ∈ (m.expansion p seen).1 :=
  mem_fresh_fst.2 ⟨(mem_fresh_snd.1 hq).resolve_right h, h⟩

theorem expansion_room {room : List (SortedSet S)} (h : ∀ q ∈ m.targetSets, q ∉ seen → q ∈ room) :
    ∃ room' : List (SortedSet S), room'.length + (m.expansion p seen).1.length = room.length ∧
      ∀ q ∈ m.targetSets, q ∉ (m.expansion p seen).2 → q ∈ room' := by
  refine fresh_room (fun q hq => ?_) h
  obtain ⟨a, _, rfl⟩ := mem_targets.1 hq
  exact m.successor_mem_targetSets p a

theorem explore_closed {n : Nat} {queue room : List (SortedSet S)}
    (hroom : ∀ q ∈ m.targetSets, q ∉ seen → q ∈ room) (hn : queue.length + room.length ≤ n) :
    (∀ q ∈ queue, q ∈ m.explore n queue seen) ∧
      ∀ q ∈ m.explore n queue seen, ∀ a ∈ m.alphabet,
        m.successor q a ∈ m.explore n queue seen ∨ m.successor q a ∈ seen := by
  induction n generalizing queue seen room with
  | zero =>
    have hq : queue = [] := List.length_eq_zero_iff.1 (by omega)
    subst hq
    exact ⟨fun q hq => hq, fun q hq => absurd hq List.not_mem_nil⟩
  | succ n ih =>
    cases queue with
    | nil => exact ⟨fun q hq => hq, fun q hq => absurd hq List.not_mem_nil⟩
    | cons p queue =>
      rw [explore_cons]
      -- what joins the queue leaves the room, so the steps that are left still suffice
      obtain ⟨room', hlen, hroom'⟩ := expansion_room (p := p) hroom
      have hn' : (queue ++ (m.expansion p seen).1).length + room'.length ≤ n := by
        simp only [List.length_append, List.length_cons] at hn ⊢
        omega
      obtain ⟨hqueue, hclosed⟩ := ih hroom' hn'
      constructor
      · intro q hq
        rcases List.mem_cons.1 hq with rfl | hq
        · exact List.mem_cons_self
        · exact List.mem_cons_of_mem p (hqueue q (List.mem_append_left _ hq))
      · intro q hq a ha
        by_cases hs : m.successor q a ∈ seen
        · exact .inr hs
        · left
          apply List.mem_cons_of_mem
          rcases List.mem_cons.1 hq with rfl | hq
          · exact hqueue _ (List.mem_append_right _ (successor_mem_expansion ha hs))
          · rcases hclosed q hq a ha with h | h
            · exact h
            · exact hqueue _ (List.mem_append_right _ (mem_expansion_of_seen_later h hs))

variable (m p)

theorem discovered_closed :
    p ∈ m.discovered p ∧
      ∀ q ∈ m.discovered p, ∀ a ∈ m.alphabet, m.successor q a ∈ m.discovered p := by
  have hn : [p].length + m.targetSets.length ≤ Nat.pow 2 m.rules.length + 1 := by
    rw [length_targetSets, List.length_singleton, Nat.add_comm]
  have hroom : ∀ q ∈ m.targetSets, q ∉ ({p} : Std.TreeSet (SortedSet S)) → q ∈ m.targetSets :=
    fun q hq _ => hq
  obtain ⟨hstart, hclosed⟩ := explore_closed hroom hn
  have hp : p ∈ m.discovered p := hstart p List.mem_cons_self
  refine ⟨hp, fun q hq a ha => ?_⟩
  rcases hclosed q hq a ha with h | h
  · exact h
  · rcases mem_insertTree.1 h with h | h
    · rw [h]
      exact hp
    · exact absurd h Std.TreeSet.not_mem_emptyc

theorem start_mem_discovered : p ∈ m.discovered p :=
  (m.discovered_closed p).1

variable {m p}

theorem successor_mem_discovered {a : C} (hq : q ∈ m.discovered p) (ha : a ∈ m.alphabet) :
    m.successor q a ∈ m.discovered p :=
  (m.discovered_closed p).2 q hq a ha

theorem mem_discoveredRules {r : FiniteRule (SortedSet S) C} :
    r ∈ m.discoveredRules p ↔
      ∃ q ∈ m.discovered p, ∃ a ∈ m.alphabet, r = ⟨q, some a, m.successor q a⟩ := by
  simp only [discoveredRules, List.mem_flatMap, mem_rulesFrom]

end TableMachines.Nfa
