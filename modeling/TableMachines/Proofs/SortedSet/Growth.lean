import Mathlib.Data.List.Perm.Subperm
import Mathlib.Logic.Relation
import TableMachines.SortedSet.Saturate

namespace TableMachines.SortedSet

variable {α : Type} [Ordered α]

theorem nodup_toList (s : SortedSet α) : s.toList.Nodup := by
  refine s.sorted.imp fun h heq => ?_
  rw [heq, Std.ReflOrd.compare_self] at h
  cases h

theorem length_le_size {s : SortedSet α} {l : List α} (hl : l.Nodup) (h : ∀ x ∈ l, x ∈ s) :
    l.length ≤ s.size :=
  (hl.subperm h).length_le

theorem size_ofList_le (l : List α) : (ofList l).size ≤ l.length :=
  ((ofList l).nodup_toList.subperm fun _ hx => mem_ofList.1 hx).length_le

abbrev Leads (next : α → List α) : α → α → Prop :=
  Relation.ReflTransGen fun x y => y ∈ next x

theorem mem_insertTree {a x : α} {seen : Std.TreeSet α} : x ∈ seen.insert a ↔ x = a ∨ x ∈ seen := by
  rw [Std.TreeSet.mem_insert, Std.LawfulEqCmp.compare_eq_iff_eq, eq_comm]

theorem fresh_room {U : α → Prop} {l : List α} (hl : ∀ x ∈ l, U x) {seen : Std.TreeSet α}
    {room : List α} (hroom : ∀ x, U x → x ∉ seen → x ∈ room) :
    ∃ room' : List α, room'.length + (fresh l seen).1.length = room.length ∧
      ∀ x, U x → x ∉ (fresh l seen).2 → x ∈ room' := by
  induction l generalizing seen room with
  | nil => exact ⟨room, by simp [fresh], by simpa [fresh] using hroom⟩
  | cons a l ih =>
    have hl' : ∀ x ∈ l, U x := fun x hx => hl x (List.mem_cons_of_mem a hx)
    unfold fresh
    split
    · exact ih hl' hroom
    · next ha =>
      have har : a ∈ room := hroom a (hl a List.mem_cons_self) ha
      have hroom' : ∀ x, U x → x ∉ seen.insert a → x ∈ room.erase a := by
        intro x hx hxs
        have hne : x ≠ a := fun h => hxs (mem_insertTree.2 (.inl h))
        have hx' : x ∉ seen := fun h => hxs (mem_insertTree.2 (.inr h))
        exact (List.mem_erase_of_ne hne).2 (hroom x hx hx')
      obtain ⟨room', hlen, hmem⟩ := ih hl' hroom'
      refine ⟨room', ?_, hmem⟩
      rw [List.length_erase_of_mem har] at hlen
      have := List.length_pos_of_mem har
      simp only [List.length_cons]
      omega

theorem nodup_fresh (l : List α) (seen : Std.TreeSet α) : (fresh l seen).1.Nodup := by
  induction l generalizing seen with
  | nil => exact .nil
  | cons a l ih =>
    unfold fresh
    split
    · exact ih seen
    · refine List.nodup_cons.2 ⟨fun ha => ?_, ih (seen.insert a)⟩
      exact (mem_fresh_fst.1 ha).2 (mem_insertTree.2 (.inl rfl))

theorem exists_fresh_map {β : Type} {R : β → β → Prop} {l : List β} (hl : l.Pairwise R) (f : β → α)
    (seen : Std.TreeSet α) :
    ∃ l' : List β, l'.Sublist l ∧ (fresh (l.map f) seen).1 = l'.map f ∧
      ∀ a ∈ l', f a ∉ seen ∧ ∀ b ∈ l, f b = f a → b = a ∨ R a b := by
  induction l generalizing seen with
  | nil => exact ⟨[], .slnil, rfl, fun a ha => absurd ha List.not_mem_nil⟩
  | cons c l ih =>
    obtain ⟨hc, hl⟩ := List.pairwise_cons.1 hl
    by_cases hseen : f c ∈ seen
    · obtain ⟨l', hsub, hfresh, hfirst⟩ := ih hl seen
      refine ⟨l', hsub.cons c, ?_, fun a ha => ⟨(hfirst a ha).1, fun b hb hba => ?_⟩⟩
      · rw [List.map_cons, fresh, if_pos hseen, hfresh]
      · rcases List.mem_cons.1 hb with rfl | hb
        · exact absurd (hba ▸ hseen) (hfirst a ha).1
        · exact (hfirst a ha).2 b hb hba
    · obtain ⟨l', hsub, hfresh, hfirst⟩ := ih hl (seen.insert (f c))
      refine ⟨c :: l', hsub.cons_cons c, ?_, fun a ha => ?_⟩
      · rw [List.map_cons, List.map_cons, fresh, if_neg hseen, ← hfresh]
      · rcases List.mem_cons.1 ha with rfl | ha
        · refine ⟨hseen, fun b hb _ => ?_⟩
          exact (List.mem_cons.1 hb).imp id (hc b)
        · obtain ⟨hnew, hfirst⟩ := hfirst a ha
          rw [mem_insertTree, not_or] at hnew
          refine ⟨hnew.2, fun b hb hba => ?_⟩
          rcases List.mem_cons.1 hb with rfl | hb
          · exact absurd hba.symm hnew.1
          · exact hfirst b hb hba

theorem fresh_map {β : Type} [Ordered β] {f : α → β} (hf : Function.Injective f) (l : List α)
    {seen : Std.TreeSet α} {seen' : Std.TreeSet β} (h : ∀ x, f x ∈ seen' ↔ x ∈ seen) :
    (fresh (l.map f) seen').1 = (fresh l seen).1.map f := by
  induction l generalizing seen seen' with
  | nil => rfl
  | cons a l ih =>
    rw [List.map_cons]
    unfold fresh
    by_cases ha : a ∈ seen
    · rw [if_pos ha, if_pos ((h a).2 ha)]
      exact ih h
    · have h' : ∀ x, f x ∈ seen'.insert (f a) ↔ x ∈ seen.insert a := by
        intro x
        rw [mem_insertTree, mem_insertTree, h, hf.eq_iff]
      rw [if_neg ha, if_neg (mt (h a).1 ha)]
      exact congrArg (f a :: ·) (ih h')

variable {next : α → List α}

theorem grow_nil (n : Nat) (seen : Std.TreeSet α) : grow next n [] seen = ([], seen) := by
  cases n <;> rfl

theorem grow_succ (n : Nat) (frontier : List α) (seen : Std.TreeSet α) :
    grow next (n + 1) frontier seen =
      grow next n (fresh (frontier.flatMap next) seen).1 (fresh (frontier.flatMap next) seen).2 := by
  cases frontier with
  | nil => exact (grow_nil n seen).symm
  | cons a l => rfl

/-- All that is seen is expanded, apart from the frontier. -/
structure Pending (next : α → List α) (frontier : List α) (seen : Std.TreeSet α) : Prop where
  frontier_seen : ∀ x ∈ frontier, x ∈ seen
  expanded : ∀ x ∈ seen, x ∈ frontier ∨ ∀ y ∈ next x, y ∈ seen

theorem Pending.start (next : α → List α) (s : SortedSet α) :
    Pending next s.toList (.ofList s.toList) where
  frontier_seen x hx := by simpa using hx
  expanded x hx := .inl (by simpa using hx)

theorem Pending.round {frontier : List α} {seen : Std.TreeSet α} (h : Pending next frontier seen) :
    Pending next (fresh (frontier.flatMap next) seen).1 (fresh (frontier.flatMap next) seen).2 where
  frontier_seen x hx := mem_fresh_snd.2 (.inl (mem_fresh_fst.1 hx).1)
  expanded x hx := by
    by_cases hs : x ∈ seen
    · right
      intro y hy
      rcases h.expanded x hs with hf | hn
      · exact mem_fresh_snd.2 (.inl (List.mem_flatMap.2 ⟨x, hf, hy⟩))
      · exact mem_fresh_snd.2 (.inr (hn y hy))
    · left
      exact mem_fresh_fst.2 ⟨(mem_fresh_snd.1 hx).resolve_right hs, hs⟩

theorem Pending.grow {frontier : List α} {seen : Std.TreeSet α} (h : Pending next frontier seen)
    (n : Nat) : Pending next (grow next n frontier seen).1 (grow next n frontier seen).2 := by
  induction n generalizing frontier seen with
  | zero => exact h
  | succ n ih =>
    rw [grow_succ]
    exact ih h.round

theorem mem_grow_of_mem {n : Nat} {frontier : List α} {seen : Std.TreeSet α} {x : α}
    (hx : x ∈ seen) : x ∈ (grow next n frontier seen).2 := by
  induction n generalizing frontier seen with
  | zero => exact hx
  | succ n ih =>
    rw [grow_succ]
    exact ih (mem_fresh_snd.2 (.inr hx))

theorem leads_of_mem_grow {n : Nat} {frontier : List α} {seen : Std.TreeSet α} {y : α}
    (hf : ∀ x ∈ frontier, x ∈ seen) (hy : y ∈ (grow next n frontier seen).2) :
    ∃ x ∈ seen, Leads next x y := by
  induction n generalizing frontier seen with
  | zero => exact ⟨y, hy, .refl⟩
  | succ n ih =>
    rw [grow_succ] at hy
    obtain ⟨x, hx, hxy⟩ := ih (fun z hz => mem_fresh_snd.2 (.inl (mem_fresh_fst.1 hz).1)) hy
    rcases mem_fresh_snd.1 hx with hnew | hold
    · obtain ⟨z, hz, hzx⟩ := List.mem_flatMap.1 hnew
      exact ⟨z, hf z hz, .head hzx hxy⟩
    · exact ⟨x, hold, hxy⟩

theorem grow_exhausted {U : α → Prop} (hU : ∀ x, U x → ∀ y ∈ next x, U y) {n : Nat}
    {frontier : List α} (hf : ∀ x ∈ frontier, U x) {seen : Std.TreeSet α} {room : List α}
    (hroom : ∀ x, U x → x ∉ seen → x ∈ room) (hn : room.length < n) :
    (grow next n frontier seen).1 = [] := by
  induction n generalizing frontier seen room with
  | zero => exact absurd hn (Nat.not_lt_zero _)
  | succ n ih =>
    rw [grow_succ]
    have hsucc : ∀ y ∈ frontier.flatMap next, U y := by
      intro y hy
      obtain ⟨x, hx, hxy⟩ := List.mem_flatMap.1 hy
      exact hU x (hf x hx) y hxy
    obtain ⟨room', hlen, hroom'⟩ := fresh_room hsucc hroom
    -- a round that finds something leaves less room, one that finds nothing is the last
    cases hfound : (fresh (frontier.flatMap next) seen).1 with
    | nil => rw [grow_nil]
    | cons a l =>
      have hfound' : ∀ x ∈ a :: l, U x := fun x hx => hsucc x (mem_fresh_fst.1 (hfound ▸ hx)).1
      rw [hfound, List.length_cons] at hlen
      exact ih hfound' hroom' (by omega)

theorem grow_of_le {n n' : Nat} {frontier : List α} {seen : Std.TreeSet α}
    (h : (grow next n frontier seen).1 = []) (hn : n ≤ n') :
    grow next n' frontier seen = grow next n frontier seen := by
  induction n generalizing n' frontier seen with
  | zero =>
    have hnil : frontier = [] := h
    rw [hnil, grow_nil, grow_nil]
  | succ n ih =>
    obtain ⟨n', rfl⟩ : ∃ k, n' = k + 1 := ⟨n' - 1, by omega⟩
    rw [grow_succ] at h
    rw [grow_succ, grow_succ]
    exact ih h (by omega)

theorem grow_congr {next' : α → List α} (hnext : ∀ x y, y ∈ next x ↔ y ∈ next' x)
    {frontier frontier' : List α} (hf : ∀ x, x ∈ frontier ↔ x ∈ frontier')
    {seen seen' : Std.TreeSet α} (hs : ∀ x, x ∈ seen ↔ x ∈ seen') (n : Nat) :
    (∀ x, x ∈ (grow next n frontier seen).1 ↔ x ∈ (grow next' n frontier' seen').1) ∧
      ∀ x, x ∈ (grow next n frontier seen).2 ↔ x ∈ (grow next' n frontier' seen').2 := by
  induction n generalizing frontier frontier' seen seen' with
  | zero => exact ⟨hf, hs⟩
  | succ n ih =>
    have hflat : ∀ x, x ∈ frontier.flatMap next ↔ x ∈ frontier'.flatMap next' := by
      intro x
      simp only [List.mem_flatMap, hf, hnext]
    rw [grow_succ, grow_succ]
    apply ih
    · intro x
      rw [mem_fresh_fst, mem_fresh_fst, hflat, hs]
    · intro x
      rw [mem_fresh_snd, mem_fresh_snd, hflat, hs]

theorem grow_of_rank {rank : α → Nat} {n : Nat} (hrank : ∀ x, ∀ y ∈ next x, rank y < rank x)
    {frontier : List α} (hf : ∀ x ∈ frontier, rank x < n) (seen : Std.TreeSet α) :
    (grow next n frontier seen).1 = [] := by
  induction n generalizing frontier seen with
  | zero =>
    apply List.eq_nil_iff_forall_not_mem.2
    intro x hx
    exact absurd (hf x hx) (Nat.not_lt_zero _)
  | succ n ih =>
    rw [grow_succ]
    apply ih
    intro y hy
    obtain ⟨x, hx, hxy⟩ := List.mem_flatMap.1 (mem_fresh_fst.1 hy).1
    have := hrank x y hxy
    have := hf x hx
    omega

end TableMachines.SortedSet
