import TableMachines.Proofs.Analysis.FreeCycle
import TableMachines.Proofs.Rule
import TableMachines.Proofs.Table.FirstMatch

namespace TableMachines.Table

open Relation SortedSet

section Lawful

variable {R S C K : Type} [Ordered C] [Rule R S C K] [LawfulRule R S C K] {rules : Table R}
  {n : Nat} {k l k' : K}

theorem freeMove_of_next? (h : next? rules k none = some l) :
    ∃ s t, LawfulRule.state? R k = some s ∧ LawfulRule.state? R l = some t ∧ FreeMove rules s t := by
  obtain ⟨r, hr, ⟨htrigger, hfits⟩, rfl⟩ := exists_rule_of_next? h
  have hfree : Rule.isFree r = true := by rw [Rule.isFree, htrigger]; rfl
  exact ⟨Rule.source r, Rule.target r, LawfulRule.state?_of_fits hfits, LawfulRule.state?_follow r k,
    r, hr, hfree, rfl, rfl⟩

variable [Ordered S]

theorem FreeRun.exists_sources (h : FreeRun rules n k k') :
    ∃ states : List S, states.length = n ∧ states.IsChain (FreeMove rules) ∧
      (∀ s ∈ states, s ∈ freeSources rules) ∧ ∀ s ∈ states.head?, LawfulRule.state? R k = some s := by
  induction h with
  | refl k => exact ⟨[], rfl, .nil, by simp, by simp⟩
  | @head n k l k' hl _ ih =>
    obtain ⟨states, hlen, hchain, hsources, hhead⟩ := ih
    obtain ⟨s, t, hs, ht, hst⟩ := freeMove_of_next? hl
    refine ⟨s :: states, congrArg (· + 1) hlen, List.isChain_cons.2 ⟨fun u hu => ?_, hchain⟩, ?_, ?_⟩
    · cases ht.symm.trans (hhead u hu)
      exact hst
    · intro u hu
      rcases List.mem_cons.1 hu with rfl | hu
      · exact mem_freeSources.2 ⟨t, hst⟩
      · exact hsources u hu
    · intro u hu
      cases hu
      exact hs

theorem FreeRun.length_le (hcycle : freeCycle? rules = none) (h : FreeRun rules n k k') :
    n ≤ (freeSources rules).size := by
  obtain ⟨states, hlen, hchain, hsources, _⟩ := h.exists_sources
  have hpairwise : states.Pairwise (TransGen (FreeMove rules)) :=
    List.isChain_iff_pairwise.1 (hchain.imp fun _ _ => TransGen.single)
  have hnodup : states.Nodup := by
    refine hpairwise.imp fun {s t} hst heq => ?_
    rw [← heq] at hst
    exact acyclic_of_freeCycle? hcycle s hst
  rw [← hlen]
  exact length_le_size hnodup hsources

theorem exists_endsAt (hcycle : freeCycle? rules = none) (k : K) :
    ∃ n ≤ (freeSources rules).size, ∃ k', EndsAt rules n k k' := by
  cases h : settle? rules (freeSources rules).size k with
  | none =>
    obtain ⟨k', hrun⟩ := settle?_eq_none_iff.1 h
    have := hrun.length_le hcycle
    omega
  | some k' =>
    obtain ⟨n, hn, hend⟩ := settle?_eq_some_iff.1 h
    exact ⟨n, hn, k', hend⟩

theorem EndsAt.settle?_eq (hcycle : freeCycle? rules = none) (hend : EndsAt rules n k k')
    {bound : Nat} (hbound : (freeSources rules).size ≤ bound) : settle? rules bound k = some k' :=
  settle?_eq_some_iff.2 ⟨n, (hend.1.length_le hcycle).trans hbound, hend⟩

end Lawful

variable {S C : Type} [Ordered S] [Ordered C] {rules : Table (FiniteRule S C)}
  {n bound bound' : Nat} {s t : S}

theorem mem_freeSources_of_next? (h : next? rules s none = some t) : s ∈ freeSources rules := by
  obtain ⟨u, v, hu, _, huv⟩ := freeMove_of_next? h
  cases hu
  exact mem_freeSources.2 ⟨v, huv⟩

theorem EndsAt.exists_passed (h : EndsAt rules n s t) :
    ∃ passed : List S, passed.length = n ∧ passed.Nodup ∧
      ∀ u ∈ passed, u ∈ freeSources rules ∧ ∃ m ≤ n, EndsAt rules m u t := by
  obtain ⟨hrun, hfinal⟩ := h
  induction hrun with
  | refl s => exact ⟨[], rfl, .nil, by simp⟩
  | @head n s u t hu hrun ih =>
    obtain ⟨passed, hlen, hnodup, hpassed⟩ := ih hfinal
    have hends : EndsAt rules (n + 1) s t := ⟨.head hu hrun, hfinal⟩
    have hs : s ∉ passed := by
      -- from a later visit fewer moves would be left than from the first
      intro hs
      obtain ⟨m, hm, hend⟩ := (hpassed s hs).2
      have hlength := hends.length_eq hend
      omega
    refine ⟨s :: passed, congrArg (· + 1) hlen, List.nodup_cons.2 ⟨hs, hnodup⟩, ?_⟩
    intro v hv
    rcases List.mem_cons.1 hv with rfl | hv
    · exact ⟨mem_freeSources_of_next? hu, n + 1, le_rfl, hends⟩
    · obtain ⟨hsource, m, hm, hend⟩ := hpassed v hv
      exact ⟨hsource, m, by omega, hend⟩

theorem EndsAt.length_le (h : EndsAt rules n s t) : n ≤ (freeSources rules).size := by
  obtain ⟨passed, hlen, hnodup, hpassed⟩ := h.exists_passed
  rw [← hlen]
  exact length_le_size hnodup fun u hu => (hpassed u hu).1

theorem settle?_eq_some_iff_endsAt (hbound : (freeSources rules).size ≤ bound) :
    settle? rules bound s = some t ↔ ∃ n, EndsAt rules n s t := by
  rw [settle?_eq_some_iff]
  constructor
  · rintro ⟨n, _, hend⟩
    exact ⟨n, hend⟩
  · rintro ⟨n, hend⟩
    exact ⟨n, hend.length_le.trans hbound, hend⟩

theorem settle?_eq_settle? (hbound : (freeSources rules).size ≤ bound)
    (hbound' : (freeSources rules).size ≤ bound') (s : S) :
    settle? rules bound s = settle? rules bound' s := by
  ext t
  rw [settle?_eq_some_iff_endsAt hbound, settle?_eq_some_iff_endsAt hbound']

end TableMachines.Table
