import Std.Data.TreeSet.Lemmas
import TableMachines.Ordered

/-!
Finite sets as strictly increasing lists: one list for each set, so equal members give equal sets.
-/

namespace TableMachines

namespace SortedSet

abbrev Increasing {α : Type} [Ordered α] (l : List α) : Prop :=
  l.Pairwise fun a b => compare a b = .lt

end SortedSet

structure SortedSet (α : Type) [Ordered α] where
  toList : List α
  sorted : SortedSet.Increasing toList

namespace SortedSet

variable {α β : Type} [Ordered α] [Ordered β]

instance : Membership α (SortedSet α) where
  mem s a := a ∈ s.toList

instance (a : α) (s : SortedSet α) : Decidable (a ∈ s) :=
  inferInstanceAs (Decidable (a ∈ s.toList))

instance : HasSubset (SortedSet α) where
  Subset s t := ∀ a ∈ s, a ∈ t

instance (s t : SortedSet α) : Decidable (s ⊆ t) :=
  inferInstanceAs (Decidable (∀ a ∈ s.toList, a ∈ t))

instance : EmptyCollection (SortedSet α) where
  emptyCollection := ⟨[], .nil⟩

def isEmpty (s : SortedSet α) : Bool :=
  s.toList.isEmpty

def size (s : SortedSet α) : Nat :=
  s.toList.length

theorem mem_toList {s : SortedSet α} {a : α} : a ∈ s.toList ↔ a ∈ s :=
  Iff.rfl

@[simp] theorem not_mem_empty (a : α) : a ∉ (∅ : SortedSet α) :=
  List.not_mem_nil

def insertIn (a : α) : List α → List α
  | [] => [a]
  | b :: l => match compare a b with
    | .lt => a :: b :: l
    | .eq => b :: l
    | .gt => b :: insertIn a l

theorem mem_insertIn {a x : α} {l : List α} : x ∈ insertIn a l ↔ x = a ∨ x ∈ l := by
  induction l with
  | nil => simp [insertIn]
  | cons b l ih =>
    unfold insertIn
    split
    · simp
    · next h =>
      cases Std.LawfulEqOrd.eq_of_compare h
      simp
    · simp only [List.mem_cons, ih]
      exact ⟨fun h => by rcases h with h | h | h <;> simp [h], fun h => by rcases h with h | h | h <;> simp [h]⟩

theorem increasing_insertIn {a : α} {l : List α} (hl : Increasing l) : Increasing (insertIn a l) := by
  induction l with
  | nil => simp [insertIn]
  | cons b l ih =>
    obtain ⟨hb, hl'⟩ := List.pairwise_cons.1 hl
    unfold insertIn
    split
    · next h =>
      refine List.pairwise_cons.2 ⟨fun x hx => ?_, hl⟩
      rcases List.mem_cons.1 hx with rfl | hx
      · exact h
      · exact Std.TransCmp.lt_trans h (hb x hx)
    · exact hl
    · next h =>
      refine List.pairwise_cons.2 ⟨fun x hx => ?_, ih hl'⟩
      rcases mem_insertIn.1 hx with rfl | hx
      · exact Std.OrientedCmp.gt_iff_lt.1 h
      · exact hb x hx

def insert (a : α) (s : SortedSet α) : SortedSet α :=
  ⟨insertIn a s.toList, increasing_insertIn s.sorted⟩

instance : Insert α (SortedSet α) := ⟨insert⟩

instance : Singleton α (SortedSet α) where
  singleton a := insert a ∅

def ofTree (t : Std.TreeSet α) : SortedSet α :=
  ⟨t.toList, t.ordered_toList⟩

def ofList (l : List α) : SortedSet α :=
  ofTree (.ofList l)

instance : Union (SortedSet α) where
  union s t := ofList (s.toList ++ t.toList)

def filter (p : α → Bool) (s : SortedSet α) : SortedSet α :=
  ⟨s.toList.filter p, s.sorted.filter p⟩

def image (f : α → β) (s : SortedSet α) : SortedSet β :=
  ofList (s.toList.map f)

def meets (s t : SortedSet α) : Bool :=
  s.toList.any (· ∈ t)

theorem mem_insert {a x : α} {s : SortedSet α} : x ∈ s.insert a ↔ x = a ∨ x ∈ s :=
  mem_insertIn

theorem mem_singleton {a x : α} : x ∈ ({a} : SortedSet α) ↔ x = a :=
  mem_insert.trans ⟨fun h => h.resolve_right (not_mem_empty x), .inl⟩

theorem mem_ofTree {x : α} {t : Std.TreeSet α} : x ∈ ofTree t ↔ x ∈ t :=
  Std.TreeSet.mem_toList

theorem mem_ofList {x : α} {l : List α} : x ∈ ofList l ↔ x ∈ l := by
  simp [ofList, mem_ofTree]

theorem mem_union {x : α} {s t : SortedSet α} : x ∈ s ∪ t ↔ x ∈ s ∨ x ∈ t :=
  mem_ofList.trans List.mem_append

theorem mem_filter {p : α → Bool} {x : α} {s : SortedSet α} : x ∈ s.filter p ↔ x ∈ s ∧ p x :=
  List.mem_filter

theorem mem_image {f : α → β} {y : β} {s : SortedSet α} : y ∈ s.image f ↔ ∃ x ∈ s, f x = y := by
  simp [image, mem_ofList, mem_toList]

theorem meets_iff {s t : SortedSet α} : s.meets t ↔ ∃ x, x ∈ s ∧ x ∈ t := by
  simp [meets, mem_toList]

theorem isEmpty_iff {s : SortedSet α} : s.isEmpty ↔ ∀ x, x ∉ s := by
  simp [isEmpty, List.eq_nil_iff_forall_not_mem, mem_toList]

theorem toList_injective {s t : SortedSet α} (h : s.toList = t.toList) : s = t := by
  cases s
  cases t
  cases h
  rfl

theorem eq_of_increasing {k l : List α} (hk : Increasing k) (hl : Increasing l)
    (h : ∀ x, x ∈ k ↔ x ∈ l) : k = l := by
  have irrefl (x : α) : compare x x ≠ .lt := by simp [Std.ReflOrd.compare_self]
  induction k generalizing l with
  | nil => exact (List.eq_nil_iff_forall_not_mem.2 fun x hx => by simpa using (h x).2 hx).symm
  | cons a k ih =>
    cases l with
    | nil => simpa using (h a).1 List.mem_cons_self
    | cons b l =>
      obtain ⟨ha, hk⟩ := List.pairwise_cons.1 hk
      obtain ⟨hb, hl'⟩ := List.pairwise_cons.1 hl
      have hab : a = b := by
        rcases List.mem_cons.1 ((h a).1 List.mem_cons_self) with hab | hal
        · exact hab
        rcases List.mem_cons.1 ((h b).2 List.mem_cons_self) with hba | hbk
        · exact hba.symm
        · exact absurd (Std.TransCmp.lt_trans (ha b hbk) (hb a hal)) (irrefl a)
      subst hab
      congr 1
      refine ih hk hl' fun x => ⟨fun hx => ?_, fun hx => ?_⟩
      · rcases List.mem_cons.1 ((h x).1 (List.mem_cons_of_mem a hx)) with rfl | hx'
        · exact absurd (ha x hx) (irrefl x)
        · exact hx'
      · rcases List.mem_cons.1 ((h x).2 (List.mem_cons_of_mem a hx)) with rfl | hx'
        · exact absurd (hb x hx) (irrefl x)
        · exact hx'

@[ext] theorem ext {s t : SortedSet α} (h : ∀ x, x ∈ s ↔ x ∈ t) : s = t :=
  toList_injective (eq_of_increasing s.sorted t.sorted h)

theorem eq_empty_of_isEmpty {s : SortedSet α} (h : s.isEmpty = true) : s = ∅ := by
  ext x
  simp [isEmpty_iff.1 h x]

instance : DecidableEq (SortedSet α) := fun s t =>
  decidable_of_iff (s.toList = t.toList) ⟨toList_injective, congrArg toList⟩

instance : Ordered (SortedSet α) :=
  Ordered.ofKey toList fun _ _ => toList_injective

end SortedSet

end TableMachines
