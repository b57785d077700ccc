import Mathlib.Data.List.TakeWhile
import TableMachines.Proofs.Turing.Cells

namespace TableMachines.Tape

variable {C : Type} {blank : C} {l l' v w : List C} {i d : Int}

def spread (blank : C) (l : List C) : Int → C
  | .ofNat n => l.getD n blank
  | .negSucc _ => blank

theorem spread_of_neg (h : i < 0) : spread blank l i = blank := by
  obtain n | n := i
  · exact absurd h (by simp)
  · rfl

theorem spread_of_length_le (h : l.length ≤ i) : spread blank l i = blank := by
  obtain n | n := i
  · have hlength : l.length ≤ n := by simpa using h
    simp [spread, List.getElem?_eq_none hlength]
  · rfl

theorem spread_append_replicate (j : Nat) :
    spread blank (l ++ List.replicate j blank) = spread blank l := by
  funext i
  obtain n | n := i
  · exact getD_append_replicate l j n blank
  · rfl

theorem spread_replicate_append (k : Nat) (i : Int) :
    spread blank (List.replicate k blank ++ l) (i + k) = spread blank l i := by
  obtain n | n := i
  · change (List.replicate k blank ++ l).getD (n + k) blank = l.getD n blank
    simp [List.getElem?_append_right]
  · -- the blanks in front reach from before cell zero to cell zero of the list
    by_cases hneg : Int.negSucc n + k < 0
    · exact spread_of_neg hneg
    · obtain ⟨p, hp⟩ := Int.eq_ofNat_of_zero_le (Int.not_lt.1 hneg)
      have hlt : p < k := by omega
      rw [hp]
      change (List.replicate k blank ++ l).getD p blank = blank
      simp [List.getElem?_append_left, hlt]

theorem cell_eq_spread (t : Tape C) (i : Int) :
    t.cell i = spread t.blank t.cells (i + t.left.length) := by
  obtain ⟨left, a, right, blank⟩ := t
  obtain (_ | n) | n := i
  · change a = (left.reverse ++ a :: right).getD (0 + left.length) blank
    simp
  · change right.getD n blank = (left.reverse ++ a :: right).getD (n + 1 + left.length) blank
    simp [List.getElem?_append_right]
  · change left.getD n blank = spread blank (left.reverse ++ a :: right) _
    by_cases hlt : n < left.length
    · have hindex : Int.negSucc n + (left.length : Int) = ((left.length - 1 - n : Nat) : Int) := by
        omega
      have hinside : left.length - 1 - n < left.reverse.length := by
        rw [List.length_reverse]
        omega
      have hback : left.length - 1 - (left.length - 1 - n) = n := by omega
      rw [hindex]
      change _ = (left.reverse ++ a :: right).getD (left.length - 1 - n) blank
      simp only [List.getD_eq_getElem?_getD, List.getElem?_append_left hinside]
      rw [List.getElem?_reverse (by omega), hback]
    · rw [spread_of_neg (by dsimp only; omega)]
      simp [List.getElem?_eq_none (Nat.not_lt.1 hlt)]

/-- The first list is the second between two runs of blanks, and no blank stands at either end of
the second. -/
structure Stripped (blank : C) (l v : List C) : Prop where
  padded : ∃ i j, l = List.replicate i blank ++ v ++ List.replicate j blank
  head : v.head? ≠ some blank
  last : v.getLast? ≠ some blank

namespace Stripped

theorem exists_spread (h : Stripped blank l v) :
    ∃ d : Int, ∀ i, spread blank v i = spread blank l (i + d) := by
  obtain ⟨k, j, rfl⟩ := h.padded
  refine ⟨k, fun i => ?_⟩
  rw [spread_append_replicate, spread_replicate_append]

theorem spread_zero_ne (h : Stripped blank l v) (hne : v ≠ []) : spread blank v 0 ≠ blank := by
  cases v with
  | nil => exact absurd rfl hne
  | cons a v =>
    have hhead := h.head
    change a ≠ blank
    simpa using hhead

theorem spread_last_ne (h : Stripped blank l v) (hne : v ≠ []) :
    spread blank v (v.length - 1) ≠ blank := by
  have hpos : 0 < v.length := List.length_pos_iff.2 hne
  have hindex : (v.length : Int) - 1 = ((v.length - 1 : Nat) : Int) := by omega
  have hlast := h.last
  rw [List.getLast?_eq_getElem?] at hlast
  rw [hindex]
  change v.getD (v.length - 1) blank ≠ blank
  have hlt : v.length - 1 < v.length := by omega
  simpa [hlt] using hlast

theorem bounds_of_translate (h : Stripped blank l v) (hne : v ≠ [])
    (heq : ∀ i, spread blank v i = spread blank w (i + d)) :
    0 ≤ d ∧ v.length + d ≤ w.length := by
  have hfirst := h.spread_zero_ne hne
  have hlast := h.spread_last_ne hne
  rw [heq] at hfirst hlast
  constructor
  · by_contra hneg
    exact hfirst (spread_of_neg (by omega))
  · by_contra hlong
    exact hlast (spread_of_length_le (by omega))

theorem eq_of_translate (hv : Stripped blank l v) (hw : Stripped blank l' w)
    (heq : ∀ i, spread blank v i = spread blank w (i + d)) : v = w := by
  have hback (i : Int) : spread blank w i = spread blank v (i + -d) := by
    rw [heq, Int.neg_add_cancel_right]
  by_cases hne : v = []
  · by_contra hdiff
    have hbounds := hw.bounds_of_translate (fun h => hdiff (hne.trans h.symm)) hback
    have hpos := List.length_pos_iff.2 fun h => hdiff (hne.trans h.symm)
    rw [hne] at hbounds
    simp only [List.length_nil] at hbounds
    omega
  · have hvw := hv.bounds_of_translate hne heq
    have hpos := List.length_pos_iff.2 hne
    have hne' : w ≠ [] := by
      rintro rfl
      simp only [List.length_nil] at hvw
      omega
    -- neither list reaches beyond the other at either end, so nothing is shifted
    have hwv := hw.bounds_of_translate hne' hback
    have hd : d = 0 := by omega
    have hlength : v.length = w.length := by omega
    apply List.ext_getElem hlength
    intro n hn hn'
    have hcell := heq n
    rw [hd, Int.add_zero] at hcell
    change v.getD n blank = w.getD n blank at hcell
    simpa [hn, hn'] using hcell

theorem unique (hv : Stripped blank l v) (hw : Stripped blank l w) : v = w := by
  obtain ⟨d, hd⟩ := hv.exists_spread
  obtain ⟨d', hd'⟩ := hw.exists_spread
  apply hv.eq_of_translate (d := d - d') hw
  intro i
  rw [hd, hd']
  congr 1
  omega

end Stripped

theorem blank_move (d : Direction) (t : Tape C) : (t.move d).blank = t.blank := by
  obtain ⟨left, a, right, blank⟩ := t
  cases d with
  | left => cases left <;> rfl
  | right => cases right <;> rfl

variable [Ordered C]

theorem takeWhile_blank (blank : C) (l : List C) :
    l.takeWhile (· = blank) = List.replicate (l.takeWhile (· = blank)).length blank := by
  apply List.eq_replicate_iff.2
  refine ⟨rfl, fun a ha => ?_⟩
  simpa using List.mem_takeWhile_imp ha

theorem head?_dropWhile_blank_ne (blank : C) (l : List C) :
    (l.dropWhile (· = blank)).head? ≠ some blank := by
  intro heq
  have hnot := List.head?_dropWhile_not (· = blank) l
  rw [heq] at hnot
  simp at hnot

theorem dropWhile_eq_trim_append (blank : C) (l : List C) :
    ∃ j, l.dropWhile (· = blank) = trim blank l ++ List.replicate j blank := by
  refine ⟨((l.dropWhile (· = blank)).reverse.takeWhile (· = blank)).length, ?_⟩
  have hsplit := List.takeWhile_append_dropWhile (p := (· = blank))
    (l := (l.dropWhile (· = blank)).reverse)
  rw [takeWhile_blank] at hsplit
  apply List.reverse_inj.1
  rw [List.reverse_append, List.reverse_replicate, trim, List.reverse_reverse, hsplit]

theorem stripped_trim (blank : C) (l : List C) : Stripped blank l (trim blank l) := by
  obtain ⟨j, hj⟩ := dropWhile_eq_trim_append blank l
  have hhead := head?_dropWhile_blank_ne blank l
  constructor
  · refine ⟨(l.takeWhile (· = blank)).length, j, ?_⟩
    rw [List.append_assoc, ← hj, ← takeWhile_blank, List.takeWhile_append_dropWhile]
  · intro heq
    rw [hj, List.head?_append, heq] at hhead
    exact hhead rfl
  · rw [trim, List.getLast?_reverse]
    exact head?_dropWhile_blank_ne blank _

theorem stripped_iff : Stripped blank l v ↔ trim blank l = v := by
  constructor
  · exact (stripped_trim blank l).unique
  · rintro rfl
    exact stripped_trim blank l

theorem stripped_contents (t : Tape C) : Stripped t.blank t.cells t.contents :=
  stripped_trim t.blank t.cells

theorem exists_spread_contents (t : Tape C) :
    ∃ d : Int, ∀ i, spread t.blank t.contents i = t.cell (i + d) := by
  obtain ⟨d, hd⟩ := t.stripped_contents.exists_spread
  refine ⟨d - t.left.length, fun i => ?_⟩
  rw [cell_eq_spread, hd]
  congr 1
  omega

theorem contents_eq_of_translate {t u : Tape C} (hblank : t.blank = u.blank)
    (h : ∀ i, t.cell i = u.cell (i + d)) : t.contents = u.contents := by
  obtain ⟨e, he⟩ := exists_spread_contents t
  obtain ⟨f, hf⟩ := exists_spread_contents u
  have hu := u.stripped_contents
  rw [← hblank] at hu hf
  apply t.stripped_contents.eq_of_translate (d := e + d - f) hu
  intro i
  rw [he, h, hf]
  congr 1
  omega

theorem translate_of_contents_eq {t u : Tape C} (hblank : t.blank = u.blank)
    (h : t.contents = u.contents) : ∃ d : Int, ∀ i, t.cell i = u.cell (i + d) := by
  obtain ⟨e, he⟩ := exists_spread_contents t
  obtain ⟨f, hf⟩ := exists_spread_contents u
  refine ⟨f - e, fun i => ?_⟩
  have hcell := he (i - e)
  rw [Int.sub_add_cancel, h, hblank, hf] at hcell
  rw [← hcell]
  congr 1
  omega

theorem contents_move (d : Direction) (t : Tape C) : (t.move d).contents = t.contents :=
  contents_eq_of_translate (blank_move d t) (cell_move d t)

theorem contents_moves (t : Tape C) (ds : List Direction) :
    (ds.foldl (fun t d => t.move d) t).contents = t.contents := by
  induction ds generalizing t with
  | nil => rfl
  | cons d ds ih => exact (ih (t.move d)).trans (contents_move d t)

theorem contents_ofInput (input : List C) (blank : C) (start : HeadStart) :
    (ofInput input blank start).contents = trim blank input := by
  cases start with
  | first =>
    cases input with
    | nil => simp [ofInput, contents, cells, leftCells, trim]
    | cons a input => rfl
  | last =>
    by_cases hne : input = []
    · simp [hne, ofInput, contents, cells, leftCells, trim]
    · have hne' : input.reverse ≠ [] := by simpa using hne
      rw [ofInput_last, contents, blank_atLeft, cells_atLeft hne', List.reverse_reverse,
        List.append_nil]

theorem contents_up_to_position :
    (∀ t u : Tape C, t.blank = u.blank →
      (t.contents = u.contents ↔ ∃ d : Int, ∀ i, t.cell i = u.cell (i + d))) ∧
    (∀ (t : Tape C) (ds : List Direction),
      (ds.foldl (fun t d => t.move d) t).contents = t.contents) ∧
    ∀ (input : List C) (blank : C) (start : HeadStart) (v : List C),
      (ofInput input blank start).contents = v ↔ Stripped blank input v := by
  refine ⟨fun t u hblank => ⟨translate_of_contents_eq hblank, ?_⟩, contents_moves, ?_⟩
  · rintro ⟨d, hd⟩
    exact contents_eq_of_translate hblank hd
  · intro input blank start v
    rw [contents_ofInput]
    exact stripped_iff.symm

theorem shifted_contents :
    let t : Tape Char := ⟨['b', '_'], 'a', ['_'], '_'⟩
    let u : Tape Char := ⟨[], '_', ['_', '_', 'b', 'a'], '_'⟩
    t.blank = u.blank ∧ t.contents = ['b', 'a'] ∧ t.contents = u.contents ∧
      ∃ d : Int, ∀ i, t.cell i = u.cell (i + d) := by
  intro t u
  have hcontents : t.contents = u.contents := by decide
  exact ⟨rfl, by decide, hcontents, (contents_up_to_position.1 t u rfl).1 hcontents⟩

end TableMachines.Tape
