import Mathlib.Data.List.TakeWhile

namespace TableMachines.Catalog

def EqualBlocks (w : List Char) : Prop :=
  ∃ n, w = List.replicate n 'a' ++ List.replicate n 'b' ++ List.replicate n 'c'

def letters (v : List Char) : List Char :=
  v.filter (· ≠ 'X')

/-- What is written on the tape before each pass: behind a `c` nothing is crossed out. -/
structure Crossed (v : List Char) : Prop where
  mem : ∀ a ∈ v, a = 'a' ∨ a = 'b' ∨ a = 'c' ∨ a = 'X'
  pairwise : v.Pairwise fun a b => a = 'c' → b ≠ 'X'

inductive Pass : List Char → List Char → Prop
  | mk {x u v y : List Char} : (∀ a ∈ x, a = 'X') → (∀ a ∈ u, a = 'a' ∨ a = 'X') →
      (∀ a ∈ v, a = 'b' ∨ a = 'X') → (∀ a ∈ y, a = 'c') →
      Pass (x ++ 'a' :: (u ++ 'b' :: (v ++ 'c' :: y))) (x ++ 'X' :: (u ++ 'X' :: (v ++ 'X' :: y)))

variable {u v v' w x y r : List Char} {a b c : Char} {i j k : Nat}

theorem equalBlocks_blocks_iff :
    EqualBlocks (List.replicate i 'a' ++ List.replicate j 'b' ++ List.replicate k 'c') ↔
      i = j ∧ j = k := by
  constructor
  · rintro ⟨n, h⟩
    have ha := congrArg (List.count 'a') h
    have hb := congrArg (List.count 'b') h
    have hc := congrArg (List.count 'c') h
    simp [List.count_replicate] at ha hb hc
    omega
  · rintro ⟨rfl, rfl⟩
    exact ⟨i, rfl⟩

instance (w : List Char) : Decidable (EqualBlocks w) :=
  decidable_of_iff (w = List.replicate (w.length / 3) 'a' ++ List.replicate (w.length / 3) 'b' ++
    List.replicate (w.length / 3) 'c') <| by
    constructor
    · exact fun h => ⟨_, h⟩
    · rintro ⟨n, rfl⟩
      have hn : (n + (n + n)) / 3 = n := by omega
      simp [hn]

theorem EqualBlocks.mem (h : EqualBlocks w) (hw : w ≠ []) : 'a' ∈ w ∧ 'b' ∈ w ∧ 'c' ∈ w := by
  obtain ⟨n, rfl⟩ := h
  cases n with
  | zero => exact absurd rfl hw
  | succ n => simp [List.replicate_succ]

theorem EqualBlocks.pairwise (h : EqualBlocks w) : w.Pairwise (· ≤ ·) := by
  obtain ⟨n, rfl⟩ := h
  rw [List.pairwise_append, List.pairwise_append]
  refine ⟨⟨?_, ?_, ?_⟩, ?_, ?_⟩
  · exact List.pairwise_replicate.2 (.inr (by decide))
  · exact List.pairwise_replicate.2 (.inr (by decide))
  · intro a ha b hb
    rw [List.eq_of_mem_replicate ha, List.eq_of_mem_replicate hb]
    decide
  · exact List.pairwise_replicate.2 (.inr (by decide))
  · intro a ha b hb
    rw [List.eq_of_mem_replicate hb]
    rcases List.mem_append.1 ha with ha | ha
    · rw [List.eq_of_mem_replicate ha]
      decide
    · rw [List.eq_of_mem_replicate ha]
      decide

@[simp] theorem mem_letters : a ∈ letters v ↔ a ∈ v ∧ a ≠ 'X' := by
  simp [letters]

@[simp] theorem letters_append (u v : List Char) : letters (u ++ v) = letters u ++ letters v :=
  List.filter_append u v

@[simp] theorem letters_cross (v : List Char) : letters ('X' :: v) = letters v := rfl

theorem letters_cons (h : a ≠ 'X') (v : List Char) : letters (a :: v) = a :: letters v := by
  simp [letters, h]

theorem letters_eq_replicate (h : ∀ b ∈ v, b = a ∨ b = 'X') :
    letters v = List.replicate (letters v).length a := by
  refine List.eq_replicate_iff.2 ⟨rfl, ?_⟩
  intro b hb
  exact (h b (mem_letters.1 hb).1).resolve_right (mem_letters.1 hb).2

theorem letters_eq_nil (h : ∀ a ∈ v, a = 'X') : letters v = [] := by
  simpa [letters] using h

theorem not_equalBlocks_of_lt (hb : b ∈ u) (hab : a < b) (ha : a ≠ 'X') (hbX : b ≠ 'X') :
    ¬ EqualBlocks (letters (u ++ a :: r)) := by
  intro h
  have hsorted := h.pairwise
  rw [letters_append, letters_cons ha] at hsorted
  have hle := (List.pairwise_append.1 hsorted).2.2 b (mem_letters.2 ⟨hb, hbX⟩) a List.mem_cons_self
  exact absurd hab (Char.not_lt.2 hle)

theorem not_equalBlocks_of_not_mem (hne : letters v ≠ []) (hb : b = 'a' ∨ b = 'b' ∨ b = 'c')
    (hv : b ∉ letters v) : ¬ EqualBlocks (letters v) := by
  intro h
  have hmem := h.mem hne
  rcases hb with rfl | rfl | rfl
  · exact hv hmem.1
  · exact hv hmem.2.1
  · exact hv hmem.2.2

theorem not_equalBlocks_of_gt (ha : a ≠ 'X') (hb : b = 'a' ∨ b = 'b' ∨ b = 'c') (hu : b ∉ u)
    (hab : b < a) : ¬ EqualBlocks (letters (u ++ a :: r)) := by
  intro h
  have hsorted := h.pairwise
  rw [letters_append, letters_cons ha] at hsorted
  have hle := (List.pairwise_cons.1 (List.pairwise_append.1 hsorted).2.1).1
  have hne : letters (u ++ a :: r) ≠ [] := by simp [letters_cons ha]
  refine not_equalBlocks_of_not_mem hne hb ?_ h
  rw [letters_append, letters_cons ha]
  intro hmem
  rcases List.mem_append.1 hmem with hmem | hmem
  · exact hu (mem_letters.1 hmem).1
  · rcases List.mem_cons.1 hmem with rfl | hmem
    · exact absurd hab (Char.lt_irrefl b)
    · exact absurd hab (Char.not_lt.2 (hle b hmem))

theorem Crossed.ne_cross (h : Crossed (u ++ a :: r)) (hc : 'c' ∈ u) : a ≠ 'X' :=
  (List.pairwise_append.1 h.pairwise).2.2 'c' hc a List.mem_cons_self rfl

theorem crossed_append (hu : ∀ a ∈ u, a = 'a' ∨ a = 'b' ∨ a = 'X') (hv : ∀ a ∈ v, a = 'c') :
    Crossed (u ++ v) where
  mem a ha := by
    rcases List.mem_append.1 ha with ha | ha
    · rcases hu a ha with h | h | h
      · exact .inl h
      · exact .inr (.inl h)
      · exact .inr (.inr (.inr h))
    · exact .inr (.inr (.inl (hv a ha)))
  pairwise := by
    have hfront : ∀ a ∈ u, a ≠ 'c' := by
      intro a ha heq
      have hmem := hu a ha
      rw [heq] at hmem
      revert hmem
      decide
    have hback : ∀ a ∈ v, a ≠ 'X' := by
      intro a ha heq
      have hmem := hv a ha
      rw [heq] at hmem
      revert hmem
      decide
    rw [List.pairwise_append]
    refine ⟨?_, ?_, ?_⟩
    · exact List.pairwise_of_forall_mem_list fun a ha _ _ hc => absurd hc (hfront a ha)
    · exact List.pairwise_of_forall_mem_list fun _ _ b hb _ => hback b hb
    · exact fun a ha _ _ hc => absurd hc (hfront a ha)

theorem Pass.crossed (h : Pass v v') : Crossed v' := by
  obtain @⟨x, u, v, y, hx, hu, hv, hy⟩ := h
  have hfront : ∀ a ∈ x ++ 'X' :: (u ++ 'X' :: (v ++ ['X'])), a = 'a' ∨ a = 'b' ∨ a = 'X' := by
    grind
  have hsplit : x ++ 'X' :: (u ++ 'X' :: (v ++ 'X' :: y)) =
      x ++ 'X' :: (u ++ 'X' :: (v ++ ['X'])) ++ y := by simp
  rw [hsplit]
  exact crossed_append hfront hy

theorem Pass.count_lt (h : Pass v v') : v'.count 'a' < v.count 'a' := by
  obtain ⟨hx, hu, hv, hy⟩ := h
  simp

theorem Pass.equalBlocks_iff (h : Pass v v') :
    EqualBlocks (letters v') ↔ EqualBlocks (letters v) := by
  obtain @⟨x, u, v, y, hx, hu, hv, hy⟩ := h
  have hy' : ∀ a ∈ y, a = 'c' ∨ a = 'X' := fun a ha => .inl (hy a ha)
  have hold : letters (x ++ 'a' :: (u ++ 'b' :: (v ++ 'c' :: y))) =
      List.replicate ((letters u).length + 1) 'a' ++ List.replicate ((letters v).length + 1) 'b' ++
        List.replicate ((letters y).length + 1) 'c' := by
    simp only [List.replicate_succ, ← letters_eq_replicate hu, ← letters_eq_replicate hv,
      ← letters_eq_replicate hy']
    simp [letters_eq_nil hx, letters_cons]
  have hnew : letters (x ++ 'X' :: (u ++ 'X' :: (v ++ 'X' :: y))) =
      List.replicate (letters u).length 'a' ++ List.replicate (letters v).length 'b' ++
        List.replicate (letters y).length 'c' := by
    simp only [← letters_eq_replicate hu, ← letters_eq_replicate hv, ← letters_eq_replicate hy']
    simp [letters_eq_nil hx]
  rw [hold, hnew, equalBlocks_blocks_iff, equalBlocks_blocks_iff]
  omega

end TableMachines.Catalog
