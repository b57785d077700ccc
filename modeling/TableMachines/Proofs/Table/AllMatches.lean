import TableMachines.Proofs.SortedSet.Saturation
import TableMachines.Table

namespace TableMachines.Table

open SortedSet

section Spells

variable {R S C K : Type} [Ordered C] [Rule R S C K] {rules : Table R}

inductive Spells (rules : Table R) : K → List C → K → Prop
  | refl (k : K) : Spells rules k [] k
  | free {k l k' : K} {w : List C} :
      l ∈ successors rules none k → Spells rules l w k' → Spells rules k w k'
  | read {k l k' : K} {a : C} {w : List C} :
      l ∈ successors rules (some a) k → Spells rules l w k' → Spells rules k (a :: w) k'

theorem Spells.of_leads {k l k' : K} {w : List C} (h : Leads (successors rules none) k l)
    (hl : Spells rules l w k') : Spells rules k w k' := by
  induction h using Relation.ReflTransGen.head_induction_on with
  | refl => exact hl
  | head hk _ ih => exact .free hk ih

theorem Spells.append_leads {k l k' : K} {w : List C} (h : Spells rules k w l)
    (hl : Leads (successors rules none) l k') : Spells rules k w k' := by
  induction h with
  | refl => exact .of_leads hl (.refl k')
  | free hk _ ih => exact .free hk (ih hl)
  | read hk _ ih => exact .read hk (ih hl)

theorem Spells.leads {k k' : K} (h : Spells rules k [] k') :
    Leads (successors rules none) k k' := by
  generalize hw : ([] : List C) = w at h
  induction h with
  | refl => exact .refl
  | free hk _ ih => exact .head hk (ih hw)
  | read => cases hw

theorem spells_nil_iff {k k' : K} : Spells rules k [] k' ↔ Leads (successors rules none) k k' :=
  ⟨Spells.leads, fun h => .of_leads h (.refl k')⟩

theorem spells_cons_iff {k k' : K} {a : C} {w : List C} :
    Spells rules k (a :: w) k' ↔
      ∃ x, Leads (successors rules none) k x ∧ ∃ y ∈ successors rules (some a) x, Spells rules y w k' := by
  constructor
  · intro h
    generalize hv : a :: w = v at h
    induction h with
    | refl => cases hv
    | free hk _ ih =>
      obtain ⟨x, hx, hy⟩ := ih hv
      exact ⟨x, .head hk hx, hy⟩
    | @read k l _ _ _ hk h _ =>
      cases hv
      exact ⟨k, .refl, l, hk, h⟩
  · rintro ⟨x, hx, y, hy, h⟩
    exact .of_leads hx (.read hy h)

theorem Spells.mem_alphabet {k k' : K} {w : List C} (h : Spells rules k w k') :
    ∀ a ∈ w, a ∈ alphabet rules := by
  induction h with
  | refl => exact fun a ha => absurd ha List.not_mem_nil
  | free _ _ ih => exact ih
  | read hk _ ih =>
    intro b hb
    rcases List.mem_cons.1 hb with rfl | hb
    · obtain ⟨r, hr, happ, _⟩ := mem_successors.1 hk
      exact Table.mem_alphabet.2 ⟨r, hr, happ.1⟩
    · exact ih b hb

variable [Ordered K] {n : Nat} {ks ks' : SortedSet K}

theorem mem_closure? (h : closure? rules n ks = some ks') {k' : K} :
    k' ∈ ks' ↔ ∃ k ∈ ks, Spells rules k [] k' := by
  simp only [mem_saturate? h, spells_nil_iff]

theorem isEmpty_of_closure? (h : closure? rules n ks = some ks') : ks.isEmpty = ks'.isEmpty := by
  rw [Bool.eq_iff_iff, SortedSet.isEmpty_iff, SortedSet.isEmpty_iff]
  constructor
  · intro hks k' hk'
    obtain ⟨k, hk, _⟩ := (mem_closure? h).1 hk'
    exact hks k hk
  · intro hks' k hk
    exact hks' k ((mem_closure? h).2 ⟨k, hk, .refl k⟩)

theorem exists_spells_advance (h : closure? rules n ks = some ks') {k' : K} {a : C} {w : List C} :
    (∃ k ∈ advance rules (some a) ks', Spells rules k w k') ↔ ∃ k ∈ ks, Spells rules k (a :: w) k' := by
  constructor
  · rintro ⟨y, hy, hw⟩
    obtain ⟨x, hx, hxy⟩ := (mem_expand _).1 hy
    obtain ⟨k, hk, hkx⟩ := (mem_closure? h).1 hx
    exact ⟨k, hk, spells_cons_iff.2 ⟨x, hkx.leads, y, hxy, hw⟩⟩
  · rintro ⟨k, hk, hw⟩
    obtain ⟨x, hkx, y, hxy, hw⟩ := spells_cons_iff.1 hw
    have hx : x ∈ ks' := (mem_closure? h).2 ⟨k, hk, spells_nil_iff.2 hkx⟩
    exact ⟨y, (mem_expand _).2 ⟨x, hx, hxy⟩, hw⟩

theorem exists_closure? (h : {k' | ∃ k ∈ ks, Spells rules k [] k'}.Finite) :
    ∃ ks', ∃ n, ∀ n', n ≤ n' → closure? rules n' ks = some ks' := by
  simp only [spells_nil_iff] at h
  exact exists_saturate? h

end Spells

section SameMembers

variable {R S C K : Type} {rules rules' : Table R}

def SameMembers (rules rules' : Table R) : Prop :=
  ∀ r, r ∈ rules ↔ r ∈ rules'

variable [Ordered C] [Rule R S C K]

theorem SameMembers.mem_successors (h : SameMembers rules rules') (a : Option C) (k l : K) :
    l ∈ successors rules a k ↔ l ∈ successors rules' a k := by
  simp only [Table.mem_successors, h _]

theorem SameMembers.alphabet (h : SameMembers rules rules') :
    Table.alphabet rules = Table.alphabet rules' := by
  ext a
  simp only [mem_alphabet, h _]

variable [Ordered K]

structure SameSets (rules rules' : Table R) : Prop where
  advance : ∀ (a : Option C) (ks : SortedSet K), advance rules a ks = advance rules' a ks
  closure? : ∀ n (ks : SortedSet K), closure? rules n ks = closure? rules' n ks
  ends : ∀ ks : SortedSet K, {l | ∃ k ∈ ks, Spells rules k [] l}.Finite →
    ∃ ks' n, ∀ bound, n ≤ bound →
      Table.closure? rules bound ks = some ks' ∧ Table.closure? rules' bound ks = some ks'

theorem SameMembers.sameSets (h : SameMembers rules rules') : SameSets rules rules' := by
  have hclosure (n : Nat) (ks : SortedSet K) : closure? rules n ks = closure? rules' n ks :=
    saturate?_congr (h.mem_successors none) n ks
  constructor
  · intro a ks
    ext l
    simp only [mem_advance, h _]
  · exact hclosure
  · intro ks hfinite
    obtain ⟨ks', n, hn⟩ := exists_closure? hfinite
    refine ⟨ks', n, fun bound hbound => ⟨hn bound hbound, ?_⟩⟩
    rw [← hclosure]
    exact hn bound hbound

end SameMembers

end TableMachines.Table
