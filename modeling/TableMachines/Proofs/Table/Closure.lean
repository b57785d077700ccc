import TableMachines.Catalog.Tables
import TableMachines.Proofs.Finite.Path

namespace TableMachines

open SortedSet

namespace Table

variable {R S C K : Type} [Ordered C] [Ordered K] [Rule R S C K] {rules : Table R}
  {ks ks' ls ls' : SortedSet K}

def freeReach (rules : Table R) (ks : SortedSet K) : Set K :=
  {l | ∃ k ∈ ks, Leads (successors rules none) k l}

def ClosesTo (rules : Table R) (ks ls : SortedSet K) : Prop :=
  ∃ n, ∀ bound, n ≤ bound → closure? rules bound ks = some ls

structure LeastClosed (rules : Table R) (ks ls : SortedSet K) : Prop where
  reached : ∀ l, l ∈ ls ↔ ∃ k ∈ ks, Leads (successors rules none) k l
  above : ks ⊆ ls
  closed : advance rules none ls ⊆ ls
  least : ∀ ts : SortedSet K, ks ⊆ ts → advance rules none ts ⊆ ts → ls ⊆ ts

structure ClosureLaws (rules : Table R) : Prop where
  functional : ∀ ks ls ls' : SortedSet K, ClosesTo rules ks ls → ClosesTo rules ks ls' → ls = ls'
  extensive : ∀ ks ls : SortedSet K, ClosesTo rules ks ls → ks ⊆ ls
  monotone : ∀ ks ks' ls' : SortedSet K, ks ⊆ ks' → ClosesTo rules ks' ls' →
    ∃ ls, ClosesTo rules ks ls ∧ ls ⊆ ls'
  idempotent : ∀ ks ls : SortedSet K, ClosesTo rules ks ls → ClosesTo rules ls ls
  union : ∀ ks ks' ls ls' : SortedSet K, ClosesTo rules ks ls → ClosesTo rules ks' ls' →
    ClosesTo rules (ks ∪ ks') (ls ∪ ls')

theorem subset_freeReach {k : K} (h : k ∈ ks) : k ∈ freeReach rules ks :=
  ⟨k, h, .refl⟩

theorem freeReach_mono (h : ks ⊆ ks') : freeReach rules ks ⊆ freeReach rules ks' := by
  rintro l ⟨k, hk, hkl⟩
  exact ⟨k, h k hk, hkl⟩

theorem freeReach_union (ks ks' : SortedSet K) :
    freeReach rules (ks ∪ ks') = freeReach rules ks ∪ freeReach rules ks' := by
  ext l
  simp only [freeReach, Set.mem_ofPred_eq, Set.mem_union, mem_union, or_and_right, exists_or]

theorem closesTo_of_closure? {n : Nat} (h : closure? rules n ks = some ls) : ClosesTo rules ks ls :=
  ⟨n, fun _ hn => saturate?_of_le h hn⟩

theorem ClosesTo.mem_iff (h : ClosesTo rules ks ls) {l : K} : l ∈ ls ↔ l ∈ freeReach rules ks := by
  obtain ⟨n, hn⟩ := h
  exact mem_saturate? (hn n le_rfl)

theorem exists_closesTo_iff : (∃ ls, ClosesTo rules ks ls) ↔ (freeReach rules ks).Finite := by
  constructor
  · rintro ⟨ls, h⟩
    exact ls.toList.finite_toSet.subset fun l hl => h.mem_iff.2 hl
  · exact exists_saturate?

theorem closesTo_iff : ClosesTo rules ks ls ↔ ∀ l, l ∈ ls ↔ l ∈ freeReach rules ks := by
  constructor
  · intro h l
    exact h.mem_iff
  · intro h
    obtain ⟨ls', hls'⟩ := exists_closesTo_iff.2 (ls.toList.finite_toSet.subset fun l hl => (h l).2 hl)
    have heq : ls' = ls := by
      ext l
      rw [hls'.mem_iff, h]
    exact heq ▸ hls'

theorem ClosesTo.leastClosed (h : ClosesTo rules ks ls) : LeastClosed rules ks ls where
  reached _ := h.mem_iff
  above _ hk := h.mem_iff.2 (subset_freeReach hk)
  closed l hl := by
    obtain ⟨l₀, hl₀, hstep⟩ := (mem_expand _).1 hl
    obtain ⟨k, hk, hkl₀⟩ := h.mem_iff.1 hl₀
    exact h.mem_iff.2 ⟨k, hk, hkl₀.tail hstep⟩
  least ts hks hts l hl := by
    obtain ⟨k, hk, hkl⟩ := h.mem_iff.1 hl
    clear hl
    induction hkl with
    | refl => exact hks k hk
    | tail _ hstep ih => exact hts _ ((mem_expand _).2 ⟨_, ih, hstep⟩)

theorem ClosesTo.again (h : ClosesTo rules ks ls) : ClosesTo rules ls ls := by
  refine closesTo_iff.2 fun l => ⟨subset_freeReach, ?_⟩
  rintro ⟨l₀, hl₀, hl₀l⟩
  obtain ⟨k, hk, hkl₀⟩ := h.mem_iff.1 hl₀
  exact h.mem_iff.2 ⟨k, hk, hkl₀.trans hl₀l⟩

theorem ClosesTo.union (h : ClosesTo rules ks ls) (h' : ClosesTo rules ks' ls') :
    ClosesTo rules (ks ∪ ks') (ls ∪ ls') := by
  refine closesTo_iff.2 fun l => ?_
  rw [freeReach_union, Set.mem_union, mem_union, h.mem_iff, h'.mem_iff]

theorem closureLaws (rules : Table R) : ClosureLaws rules where
  functional ks ls ls' h h' := by
    ext l
    rw [h.mem_iff, h'.mem_iff]
  extensive ks ls h := h.leastClosed.above
  monotone ks ks' ls' hks h' := by
    have hfinite := exists_closesTo_iff.1 ⟨ls', h'⟩
    obtain ⟨ls, h⟩ := exists_closesTo_iff.2 (hfinite.subset (freeReach_mono hks))
    exact ⟨ls, h, fun l hl => h'.mem_iff.2 (freeReach_mono hks (h.mem_iff.1 hl))⟩
  idempotent ks ls h := h.again
  union ks ks' ls ls' h h' := h.union h'

end Table

open Table

variable {S C : Type} [Ordered S] [Ordered C]

theorem Nfa.closesTo_closed (m : Nfa S C) (p : SortedSet S) : ClosesTo m.rules p (m.closed p) :=
  closesTo_of_closure? (m.closure?_eq p)

theorem Nfa.closed_subset {m : Nfa S C} {p q : SortedSet S} (h : p ⊆ q) :
    m.closed p ⊆ m.closed q := by
  intro s hs
  exact (m.closesTo_closed q).mem_iff.2 (freeReach_mono h ((m.closesTo_closed p).mem_iff.1 hs))

theorem closure_holds_just_what_is_reached :
    (∀ {R S C K : Type} [Ordered C] [Ordered K] [Rule R S C K] (rules : Table R),
      (∀ ks : SortedSet K, (freeReach rules ks).Finite →
        ∃ ls, ClosesTo rules ks ls ∧ LeastClosed rules ks ls) ∧ ClosureLaws rules) ∧
    ∀ m : Nfa S C,
      (∀ p, ClosesTo m.rules p (m.closed p) ∧ LeastClosed m.rules p (m.closed p)) ∧
      (∀ p q, p ⊆ q → m.closed p ⊆ m.closed q) ∧
      (∀ p, m.closed (m.closed p) = m.closed p) ∧
      ∀ p q, m.closed (p ∪ q) = m.closed p ∪ m.closed q := by
  refine ⟨fun rules => ⟨fun ks hfinite => ?_, closureLaws rules⟩, fun m => ⟨fun p => ?_, ?_, ?_, ?_⟩⟩
  · obtain ⟨ls, h⟩ := exists_closesTo_iff.2 hfinite
    exact ⟨ls, h, h.leastClosed⟩
  · exact ⟨m.closesTo_closed p, (m.closesTo_closed p).leastClosed⟩
  · intro p q h
    exact Nfa.closed_subset h
  · exact Nfa.closed_closed
  · exact Nfa.closed_union

theorem closure_holds_just_what_is_reached_middle :
    let m := Catalog.evenPalindrome
    let ks : SortedSet (PushdownConfig UInt32 Char) := {m.startConfig, ⟨.stuck, ⟨['a']⟩⟩}
    let circle := Catalog.finite [(1, none, 2), (2, none, 3), (3, none, 1)]
    (freeReach m.rules ks).Finite ∧
    (∃ ls, ClosesTo m.rules ks ls ∧ LeastClosed m.rules ks ls) ∧
    (∃ ls, ClosesTo circle {2} ls ∧ LeastClosed circle {2} ls) ∧
    (Nfa.mk 1 {1} circle).closed {2} ⊆ (Nfa.mk 1 {1} circle).closed {2, 4} := by
  intro m ks circle
  obtain ⟨htable, hnfa⟩ := closure_holds_just_what_is_reached (S := UInt32) (C := Char)
  have hfinite {R S C K : Type} [Ordered C] [Ordered K] [Rule R S C K] {rules : Table R}
      {ks : SortedSet K} (n : Nat) (h : (closure? rules n ks).isSome = true) :
      (freeReach rules ks).Finite := by
    obtain ⟨ls, hls⟩ := Option.isSome_iff_exists.1 h
    exact exists_closesTo_iff.1 ⟨ls, closesTo_of_closure? hls⟩
  have hks : (freeReach m.rules ks).Finite := hfinite 3 (by decide)
  refine ⟨hks, ?_, ?_, ?_⟩
  · exact (htable m.rules).1 ks hks
  · exact (htable circle).1 {2} (hfinite 3 (by decide))
  · exact (hnfa ⟨1, {1}, circle⟩).2.1 {2} {2, 4} (by decide)

end TableMachines
