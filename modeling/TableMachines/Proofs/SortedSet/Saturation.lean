import Mathlib.Data.Set.Finite.Basic
import TableMachines.Proofs.SortedSet.Growth

namespace TableMachines.SortedSet

variable {α : Type} [Ordered α] {next : α → List α}

theorem saturate?_eq (n : Nat) (s : SortedSet α) :
    saturate? next n s =
      if (grow next n s.toList (.ofList s.toList)).1 = [] then some (saturate next n s) else none := by
  simp only [saturate?, saturate, List.isEmpty_iff]

theorem mem_saturate? {n : Nat} {s t : SortedSet α} {y : α} (h : saturate? next n s = some t) :
    y ∈ t ↔ ∃ x ∈ s, Leads next x y := by
  rw [saturate?_eq] at h
  split at h
  · next hnil =>
    have ht : saturate next n s = t := Option.some.inj h
    have hmem (x : α) : x ∈ t ↔ x ∈ (grow next n s.toList (.ofList s.toList)).2 := by
      rw [← ht, saturate, mem_ofTree]
    have hpending := (Pending.start next s).grow n
    rw [hnil] at hpending
    constructor
    · intro hy
      obtain ⟨x, hx, hxy⟩ := leads_of_mem_grow (Pending.start next s).frontier_seen ((hmem y).1 hy)
      exact ⟨x, by simpa [mem_toList] using hx, hxy⟩
    · rintro ⟨x, hx, hxy⟩
      rw [hmem]
      induction hxy with
      | refl => exact mem_grow_of_mem (by simpa [mem_toList] using hx)
      | tail _ hz ih => exact (hpending.expanded _ ih).resolve_left List.not_mem_nil _ hz
  · cases h

theorem saturate?_eq_saturate {n : Nat} {s : SortedSet α} (room : List α)
    (hroom : ∀ x ∈ s, ∀ y, Leads next x y → y ∈ s ∨ y ∈ room) (hn : room.length < n) :
    saturate? next n s = some (saturate next n s) := by
  rw [saturate?_eq, if_pos]
  refine grow_exhausted (U := fun y => ∃ x ∈ s, Leads next x y) ?_ ?_ ?_ hn
  · rintro y ⟨x, hx, hxy⟩ z hz
    exact ⟨x, hx, hxy.tail hz⟩
  · intro x hx
    exact ⟨x, hx, .refl⟩
  · rintro y ⟨x, hx, hxy⟩ hy
    exact (hroom x hx y hxy).resolve_left fun h => hy (by simpa [mem_toList] using h)

theorem saturate?_of_le {n n' : Nat} {s t : SortedSet α} (h : saturate? next n s = some t)
    (hn : n ≤ n') : saturate? next n' s = some t := by
  rw [saturate?_eq] at h
  split at h
  · next hnil =>
    have hgrow := grow_of_le hnil hn
    rw [saturate?_eq, saturate, hgrow, if_pos hnil]
    exact h
  · cases h

theorem saturate?_empty (n : Nat) : saturate? next n ∅ = some ∅ := by
  cases n <;> rfl

theorem saturate?_saturated {n : Nat} {s t : SortedSet α} (h : saturate? next n s = some t) :
    saturate? next n t = some t := by
  have hclosed : ∀ x ∈ t, ∀ y, Leads next x y → y ∈ t := by
    intro x hx y hxy
    obtain ⟨z, hz, hzx⟩ := (mem_saturate? h).1 hx
    exact (mem_saturate? h).2 ⟨z, hz, hzx.trans hxy⟩
  cases n with
  | zero =>
    -- without a round only the empty set is saturated
    have hs : s = ∅ := by
      rw [saturate?_eq] at h
      split at h
      · next hnil => exact eq_empty_of_isEmpty (List.isEmpty_iff.2 hnil)
      · cases h
    rw [hs, saturate?_empty] at h
    cases h
    exact saturate?_empty 0
  | succ n =>
    have hsome := saturate?_eq_saturate [] (fun x hx y hxy => .inl (hclosed x hx y hxy)) n.succ_pos
    rw [hsome]
    congr 1
    ext y
    rw [mem_saturate? hsome]
    constructor
    · rintro ⟨x, hx, hxy⟩
      exact hclosed x hx y hxy
    · intro hy
      exact ⟨y, hy, .refl⟩

theorem saturate?_congr {next' : α → List α} (hnext : ∀ x y, y ∈ next x ↔ y ∈ next' x) (n : Nat)
    (s : SortedSet α) : saturate? next n s = saturate? next' n s := by
  have hfrontier (x : α) : x ∈ s.toList ↔ x ∈ s.toList := Iff.rfl
  have hseen (x : α) : x ∈ Std.TreeSet.ofList s.toList ↔ x ∈ Std.TreeSet.ofList s.toList := Iff.rfl
  obtain ⟨hleft, hfound⟩ := grow_congr hnext hfrontier hseen n
  have hnil : (grow next n s.toList (.ofList s.toList)).1 = [] ↔
      (grow next' n s.toList (.ofList s.toList)).1 = [] := by
    simp only [List.eq_nil_iff_forall_not_mem, hleft]
  have hsaturate : saturate next n s = saturate next' n s := by
    ext x
    rw [saturate, saturate, mem_ofTree, mem_ofTree, hfound]
  rw [saturate?_eq, saturate?_eq, hsaturate]
  simp only [hnil]

theorem exists_saturate?_of_isSome {n : Nat} {s : SortedSet α}
    (h : ∀ n', n ≤ n' → (saturate? next n' s).isSome = true) :
    ∃ t, ∀ n', n ≤ n' → saturate? next n' s = some t := by
  obtain ⟨t, ht⟩ := Option.isSome_iff_exists.1 (h n le_rfl)
  refine ⟨t, fun n' hn => ?_⟩
  obtain ⟨t', ht'⟩ := Option.isSome_iff_exists.1 (h n' hn)
  rw [ht']
  congr 1
  ext y
  rw [mem_saturate? ht', mem_saturate? ht]

theorem exists_saturate? {s : SortedSet α} (h : {y | ∃ x ∈ s, Leads next x y}.Finite) :
    ∃ t, ∃ n, ∀ n', n ≤ n' → saturate? next n' s = some t := by
  let room := h.toFinset.toList
  have hroom : ∀ x ∈ s, ∀ y, Leads next x y → y ∈ s ∨ y ∈ room := by
    intro x hx y hxy
    exact .inr (by simpa [room] using ⟨x, hx, hxy⟩)
  obtain ⟨t, ht⟩ := exists_saturate?_of_isSome (n := room.length + 1) fun n hn =>
    Option.isSome_of_eq_some (saturate?_eq_saturate room hroom hn)
  exact ⟨t, room.length + 1, ht⟩

theorem exists_saturate?_of_rank {rank : α → Nat} {n : Nat}
    (hrank : ∀ x, ∀ y ∈ next x, rank y < rank x) {s : SortedSet α} (hs : ∀ x ∈ s, rank x < n) :
    ∃ t, ∀ n', n ≤ n' → saturate? next n' s = some t := by
  apply exists_saturate?_of_isSome
  intro n' hn
  rw [saturate?_eq, if_pos]
  · rfl
  · apply grow_of_rank hrank
    intro x hx
    have := hs x (by simpa [mem_toList] using hx)
    omega

end TableMachines.SortedSet
