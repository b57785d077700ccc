import TableMachines.Proofs.Subset.Simulation

namespace TableMachines.Nfa

open SortedSet Table

variable {S C : Type} [Ordered S] [Ordered C] {m : Nfa S C} {n n' : Nat} {p q : SortedSet S}
  {queue room : List (SortedSet S)} {seen : Std.TreeSet (SortedSet S)}

theorem explore_nil (n : Nat) (seen : Std.TreeSet (SortedSet S)) : m.explore n [] seen = [] := by
  cases n <;> rfl

theorem explore_stable (hroom : ∀ q ∈ m.targetSets, q ∉ seen → q ∈ room)
    (hn : queue.length + room.length ≤ n) (hn' : n ≤ n') :
    m.explore n' queue seen = m.explore n queue seen := by
  induction n generalizing n' queue seen room with
  | zero =>
    have hq : queue = [] := List.length_eq_zero_iff.1 (by omega)
    rw [hq, explore_nil, explore_nil]
  | succ n ih =>
    cases queue with
    | nil => rw [explore_nil, explore_nil]
    | cons p queue =>
      obtain ⟨n', rfl⟩ : ∃ k, n' = k + 1 := ⟨n' - 1, by omega⟩
      obtain ⟨room', hlen, hroom'⟩ := expansion_room (p := p) hroom
      have hqueue : (queue ++ (m.expansion p seen).1).length + room'.length ≤ n := by
        simp only [List.length_append, List.length_cons] at hn ⊢
        omega
      rw [explore_cons, explore_cons, ih hroom' hqueue (by omega)]

theorem explore_eq_discovered (p : SortedSet S) (hn : Nat.pow 2 m.rules.length + 1 ≤ n) :
    m.explore n [p] {p} = m.discovered p := by
  have hroom : ∀ q ∈ m.targetSets, q ∉ ({p} : Std.TreeSet (SortedSet S)) → q ∈ m.targetSets :=
    fun q hq _ => hq
  refine explore_stable hroom ?_ hn
  rw [length_targetSets, List.length_singleton, Nat.add_comm]

theorem exists_word_of_mem_explore (hq : q ∈ m.explore n queue seen) :
    ∃ p ∈ queue, ∃ w : List C, (∀ a ∈ w, a ∈ m.alphabet) ∧ w.foldl m.successor p = q := by
  induction n generalizing queue seen with
  | zero => cases hq
  | succ n ih =>
    cases queue with
    | nil => cases hq
    | cons p queue =>
      rw [explore_cons] at hq
      rcases List.mem_cons.1 hq with rfl | hq
      · exact ⟨q, List.mem_cons_self, [], by simp, rfl⟩
      · obtain ⟨p', hp', w, hw, hfold⟩ := ih hq
        rcases List.mem_append.1 hp' with hp' | hp'
        · exact ⟨p', List.mem_cons_of_mem p hp', w, hw, hfold⟩
        · obtain ⟨a, ha, rfl⟩ := mem_targets.1 (mem_fresh_fst.1 hp').1
          exact ⟨p, List.mem_cons_self, a :: w, List.forall_mem_cons.2 ⟨ha, hw⟩, hfold⟩

theorem mem_or_not_seen_of_mem_explore (hq : q ∈ m.explore n queue seen) : q ∈ queue ∨ q ∉ seen := by
  induction n generalizing queue seen with
  | zero => cases hq
  | succ n ih =>
    cases queue with
    | nil => cases hq
    | cons p queue =>
      rw [explore_cons] at hq
      rcases List.mem_cons.1 hq with rfl | hq
      · exact .inl List.mem_cons_self
      · rcases ih hq with hq | hq
        · rcases List.mem_append.1 hq with hq | hq
          · exact .inl (List.mem_cons_of_mem p hq)
          · exact .inr (mem_fresh_fst.1 hq).2
        · exact .inr fun hs => hq (mem_fresh_snd.2 (.inr hs))

structure Waiting (queue : List (SortedSet S)) (seen : Std.TreeSet (SortedSet S)) : Prop where
  nodup : queue.Nodup
  seen : ∀ q ∈ queue, q ∈ seen

theorem Waiting.expand (h : Waiting (p :: queue) seen) :
    Waiting (queue ++ (m.expansion p seen).1) (m.expansion p seen).2 where
  nodup := by
    refine List.nodup_append.2 ⟨(List.nodup_cons.1 h.nodup).2, nodup_fresh _ _, ?_⟩
    intro q hq q' hq' heq
    have hseen := h.seen q (List.mem_cons_of_mem p hq)
    exact (mem_fresh_fst.1 hq').2 (heq ▸ hseen)
  seen q hq := by
    rcases List.mem_append.1 hq with hq | hq
    · exact mem_fresh_snd.2 (.inr (h.seen q (List.mem_cons_of_mem p hq)))
    · exact mem_fresh_snd.2 (.inl (mem_fresh_fst.1 hq).1)

theorem nodup_explore (h : Waiting queue seen) : (m.explore n queue seen).Nodup := by
  induction n generalizing queue seen with
  | zero => exact .nil
  | succ n ih =>
    cases queue with
    | nil => exact .nil
    | cons p queue =>
      have hp : p ∈ seen := h.seen p List.mem_cons_self
      rw [explore_cons]
      refine List.nodup_cons.2 ⟨fun hagain => ?_, ih h.expand⟩
      -- a set listed again would have been queued twice or found after it was seen
      rcases mem_or_not_seen_of_mem_explore hagain with hq | hq
      · rcases List.mem_append.1 hq with hq | hq
        · exact (List.nodup_cons.1 h.nodup).1 hq
        · exact (mem_fresh_fst.1 hq).2 hp
      · exact hq (mem_fresh_snd.2 (.inr hp))

theorem nodup_discovered (m : Nfa S C) (p : SortedSet S) : (m.discovered p).Nodup := by
  refine nodup_explore ⟨List.nodup_singleton p, fun q hq => ?_⟩
  rw [List.mem_singleton.1 hq]
  exact mem_insertTree.2 (.inl rfl)

theorem foldl_mem_discovered (hq : q ∈ m.discovered p) {w : List C} (hw : ∀ a ∈ w, a ∈ m.alphabet) :
    w.foldl m.successor q ∈ m.discovered p := by
  induction w generalizing q with
  | nil => exact hq
  | cons a w ih =>
    obtain ⟨ha, hw⟩ := List.forall_mem_cons.1 hw
    exact ih (successor_mem_discovered hq ha) hw

theorem mem_discovered_iff :
    q ∈ m.discovered p ↔ ∃ w : List C, (∀ a ∈ w, a ∈ m.alphabet) ∧ w.foldl m.successor p = q := by
  constructor
  · intro hq
    obtain ⟨p', hp', hw⟩ := exists_word_of_mem_explore hq
    rw [List.mem_singleton.1 hp'] at hw
    exact hw
  · rintro ⟨w, hw, rfl⟩
    exact foldl_mem_discovered (m.start_mem_discovered p) hw

end TableMachines.Nfa
