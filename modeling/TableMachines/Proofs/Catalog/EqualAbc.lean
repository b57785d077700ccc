import TableMachines.Catalog.Tables
import TableMachines.Proofs.Catalog.EqualBlocks
import TableMachines.Proofs.Turing.Scans

/-!
The machine that crosses out one letter of each kind in every pass accepts once all is crossed out.
It is stuck in the first pass over letters that do not come in equal blocks.
-/

namespace TableMachines.Catalog

open Dtm Tape

def passStart (i j : Nat) (v : List Char) : TuringConfig UInt32 Char :=
  ⟨1, atRight blankSymbol (List.replicate i blankSymbol) (v ++ List.replicate j blankSymbol)⟩

def Refuses (v : List Char) : Prop :=
  ∃ u u' s rest, v = u ++ rest ∧ equalAbc.Scan .right 1 u s u' ∧ s ∉ equalAbc.accept ∧
    equalAbc.lookup? s (rest.headD blankSymbol) = none

variable {r u u' v v' w x y : List Char} {a b : Char} {s : UInt32}

theorem scan_crossed (hx : ∀ a ∈ x, a = 'X') : equalAbc.Scan .right 1 x 1 x := by
  have hkeep : (['X'].all fun a => equalAbc.Acts 1 a 1 a .right) = true := by decide
  exact .keep_of_mem hkeep (by simpa using hx)

theorem scan_firsts (hu : ∀ a ∈ u, a = 'a' ∨ a = 'X') : equalAbc.Scan .right 2 u 2 u := by
  have hkeep : (['a', 'X'].all fun a => equalAbc.Acts 2 a 2 a .right) = true := by decide
  exact .keep_of_mem hkeep (by simpa using hu)

theorem scan_seconds (hv : ∀ a ∈ v, a = 'b' ∨ a = 'X') : equalAbc.Scan .right 3 v 3 v := by
  have hkeep : (['b', 'X'].all fun a => equalAbc.Acts 3 a 3 a .right) = true := by decide
  exact .keep_of_mem hkeep (by simpa using hv)

theorem scan_thirds (hy : ∀ a ∈ y, a = 'c') : equalAbc.Scan .right 4 y 4 y := by
  have hkeep : (['c'].all fun a => equalAbc.Acts 4 a 4 a .right) = true := by decide
  exact .keep_of_mem hkeep (by simpa using hy)

theorem scan_back (hv : ∀ a ∈ v, a = 'a' ∨ a = 'b' ∨ a = 'c' ∨ a = 'X') :
    equalAbc.Scan .left 5 v 5 v := by
  have hkeep : (['a', 'b', 'c', 'X'].all fun a => equalAbc.Acts 5 a 5 a .left) = true := by decide
  exact .keep_of_mem hkeep (by simpa using hv)

theorem scan_to_second (hx : ∀ a ∈ x, a = 'X') (hu : ∀ a ∈ u, a = 'a' ∨ a = 'X') :
    equalAbc.Scan .right 1 (x ++ 'a' :: u) 2 (x ++ 'X' :: u) := by
  apply (scan_crossed hx).append
  exact .cons (by decide) (scan_firsts hu)

theorem scan_to_third (hx : ∀ a ∈ x, a = 'X') (hu : ∀ a ∈ u, a = 'a' ∨ a = 'X')
    (hv : ∀ a ∈ v, a = 'b' ∨ a = 'X') :
    equalAbc.Scan .right 1 (x ++ 'a' :: (u ++ 'b' :: v)) 3 (x ++ 'X' :: (u ++ 'X' :: v)) := by
  have hb : equalAbc.Acts 2 'b' 3 'X' .right := by decide
  have hscan := (scan_to_second hx hu).append (.cons hb (scan_seconds hv))
  simpa using hscan

theorem scan_to_end (hx : ∀ a ∈ x, a = 'X') (hu : ∀ a ∈ u, a = 'a' ∨ a = 'X')
    (hv : ∀ a ∈ v, a = 'b' ∨ a = 'X') (hy : ∀ a ∈ y, a = 'c') :
    equalAbc.Scan .right 1 (x ++ 'a' :: (u ++ 'b' :: (v ++ 'c' :: y))) 4
      (x ++ 'X' :: (u ++ 'X' :: (v ++ 'X' :: y))) := by
  have hc : equalAbc.Acts 3 'c' 4 'X' .right := by decide
  have hscan := (scan_to_third hx hu hv).append (.cons hc (scan_thirds hy))
  simpa using hscan

theorem exists_span (p : Char → Prop) [DecidablePred p] (v : List Char) :
    ∃ u rest, v = u ++ rest ∧ (∀ a ∈ u, p a) ∧ ∀ a ∈ rest.head?, ¬ p a := by
  refine ⟨v.takeWhile p, v.dropWhile p, List.takeWhile_append_dropWhile.symm, ?_, ?_⟩
  · intro a ha
    simpa using List.mem_takeWhile_imp ha
  · intro a ha
    have hnot := List.head?_dropWhile_not (fun a => decide (p a)) v
    rw [Option.mem_def.1 ha] at hnot
    simpa using hnot

def Settled (w : List Char) : Prop :=
  Refuses w ∧ ¬ EqualBlocks (letters w) ∨ ∃ w', Pass w w'

section Stuck

variable (h : equalAbc.Scan .right 1 u s u') (hs : s ∉ equalAbc.accept)
include h hs

theorem refuses_at_letter (ha : equalAbc.lookup? s a = none) (r : List Char) :
    Refuses (u ++ a :: r) :=
  ⟨u, u', s, a :: r, rfl, h, hs, ha⟩

theorem settled_of_lt (ha : equalAbc.lookup? s a = none) (hb : b ∈ u) (hab : a < b) (haX : a ≠ 'X')
    (hbX : b ≠ 'X') (r : List Char) : Settled (u ++ a :: r) :=
  .inl ⟨refuses_at_letter h hs ha r, not_equalBlocks_of_lt hb hab haX hbX⟩

theorem settled_of_gt (ha : equalAbc.lookup? s a = none) (haX : a ≠ 'X')
    (hb : b = 'a' ∨ b = 'b' ∨ b = 'c') (hu : b ∉ u) (hab : b < a) (r : List Char) :
    Settled (u ++ a :: r) :=
  .inl ⟨refuses_at_letter h hs ha r, not_equalBlocks_of_gt haX hb hu hab⟩

theorem settled_at_end (hblank : equalAbc.lookup? s blankSymbol = none) (ha : a ∈ u) (haX : a ≠ 'X')
    (hb : b = 'a' ∨ b = 'b' ∨ b = 'c') (hu : b ∉ u) : Settled u := by
  have hne : letters u ≠ [] := List.ne_nil_of_mem (mem_letters.2 ⟨ha, haX⟩)
  have hmissing : b ∉ letters u := fun hmem => hu (mem_letters.1 hmem).1
  left
  constructor
  · exact ⟨u, u', s, [], (List.append_nil u).symm, h, hs, hblank⟩
  · exact not_equalBlocks_of_not_mem hne hb hmissing

end Stuck

theorem settled_behind_third (hx : ∀ a ∈ x, a = 'X') (hu : ∀ a ∈ u, a = 'a' ∨ a = 'X')
    (hv : ∀ a ∈ v, a = 'b' ∨ a = 'X')
    (hw : Crossed (x ++ 'a' :: (u ++ 'b' :: (v ++ 'c' :: r)))) :
    Settled (x ++ 'a' :: (u ++ 'b' :: (v ++ 'c' :: r))) := by
  obtain ⟨y, r, rfl, hy, hr⟩ := exists_span (· = 'c') r
  cases r with
  | nil =>
    rw [List.append_nil]
    exact .inr ⟨_, .mk hx hu hv hy⟩
  | cons d r =>
    have hsplit : x ++ 'a' :: (u ++ 'b' :: (v ++ 'c' :: (y ++ d :: r))) =
        x ++ 'a' :: (u ++ 'b' :: (v ++ 'c' :: y)) ++ d :: r := by simp
    have hc : 'c' ∈ x ++ 'a' :: (u ++ 'b' :: (v ++ 'c' :: y)) := by simp
    have hd : d ≠ 'c' := hr d rfl
    have hmem := hw.mem d (by simp)
    rw [hsplit] at hw ⊢
    have hcross : d ≠ 'X' := hw.ne_cross hc
    have hscan := scan_to_end hx hu hv hy
    rcases hmem with rfl | rfl | rfl | rfl
    · exact settled_of_lt hscan (by decide) (by decide) hc (by decide) (by decide) (by decide) r
    · exact settled_of_lt hscan (by decide) (by decide) hc (by decide) (by decide) (by decide) r
    · exact absurd rfl hd
    · exact absurd rfl hcross

theorem settled_behind_second (hx : ∀ a ∈ x, a = 'X') (hu : ∀ a ∈ u, a = 'a' ∨ a = 'X')
    (hw : Crossed (x ++ 'a' :: (u ++ 'b' :: r))) : Settled (x ++ 'a' :: (u ++ 'b' :: r)) := by
  obtain ⟨v, r, rfl, hv, hr⟩ := exists_span (fun a => a = 'b' ∨ a = 'X') r
  have hscan := scan_to_third hx hu hv
  cases r with
  | nil =>
    rw [List.append_nil]
    have ha : 'a' ∈ x ++ 'a' :: (u ++ 'b' :: v) := by simp
    have hmissing : 'c' ∉ x ++ 'a' :: (u ++ 'b' :: v) := by grind
    exact settled_at_end hscan (by decide) (by decide) ha (by decide) (.inr (.inr rfl)) hmissing
  | cons c r =>
    have hc := hr c rfl
    rcases hw.mem c (by simp) with rfl | rfl | rfl | rfl
    · have hsplit : x ++ 'a' :: (u ++ 'b' :: (v ++ 'a' :: r)) =
          x ++ 'a' :: (u ++ 'b' :: v) ++ 'a' :: r := by simp
      have hb : 'b' ∈ x ++ 'a' :: (u ++ 'b' :: v) := by simp
      rw [hsplit]
      exact settled_of_lt hscan (by decide) (by decide) hb (by decide) (by decide) (by decide) r
    · exact absurd (.inl rfl) hc
    · exact settled_behind_third hx hu hv hw
    · exact absurd (.inr rfl) hc

theorem settled_behind_first (hx : ∀ a ∈ x, a = 'X') (hw : Crossed (x ++ 'a' :: r)) :
    Settled (x ++ 'a' :: r) := by
  obtain ⟨u, r, rfl, hu, hr⟩ := exists_span (fun a => a = 'a' ∨ a = 'X') r
  have hscan := scan_to_second hx hu
  have hmissing : 'b' ∉ x ++ 'a' :: u := by grind
  cases r with
  | nil =>
    rw [List.append_nil]
    have ha : 'a' ∈ x ++ 'a' :: u := by simp
    exact settled_at_end hscan (by decide) (by decide) ha (by decide) (.inr (.inl rfl)) hmissing
  | cons b r =>
    have hb := hr b rfl
    rcases hw.mem b (by simp) with rfl | rfl | rfl | rfl
    · exact absurd (.inl rfl) hb
    · exact settled_behind_second hx hu hw
    · have hsplit : x ++ 'a' :: (u ++ 'c' :: r) = x ++ 'a' :: u ++ 'c' :: r := by simp
      rw [hsplit]
      exact settled_of_gt hscan (by decide) (by decide) (by decide) (.inr (.inl rfl)) hmissing
        (by decide) r
    · exact absurd (.inr rfl) hb

theorem pass_cases (hw : Crossed w) : (∀ a ∈ w, a = 'X') ∨ Settled w := by
  obtain ⟨x, r, rfl, hx, hr⟩ := exists_span (· = 'X') w
  have hscan := scan_crossed hx
  have hmissing : 'a' ∉ x := fun h => by simpa using hx 'a' h
  cases r with
  | nil => exact .inl (by simpa using hx)
  | cons a r =>
    right
    rcases hw.mem a (by simp) with rfl | rfl | rfl | rfl
    · exact settled_behind_first hx hw
    · exact settled_of_gt hscan (by decide) (by decide) (by decide) (.inl rfl) hmissing (by decide) r
    · exact settled_of_gt hscan (by decide) (by decide) (by decide) (.inl rfl) hmissing (by decide) r
    · exact absurd rfl (hr 'X' rfl)

theorem Pass.scan (h : Pass v v') : equalAbc.Scan .right 1 v 4 v' := by
  obtain ⟨hx, hu, hv, hy⟩ := h
  exact scan_to_end hx hu hv hy

theorem Pass.reaches (h : Pass v v') (i j : Nat) :
    ∃ n i' j', equalAbc.Reaches n (passStart i j v) (passStart i' j' v') := by
  have hthere := h.scan.right (List.replicate i blankSymbol) (List.replicate j blankSymbol) blankSymbol
  have hturn : equalAbc.Acts 4 blankSymbol 5 blankSymbol .left := by decide
  have hback := (scan_back (v := v'.reverse) (by simpa using h.crossed.mem)).left
    (List.replicate i blankSymbol) (blankSymbol :: List.replicate (j - 1) blankSymbol) blankSymbol
  have hstart : equalAbc.Acts 5 blankSymbol 1 blankSymbol .right := by decide
  rw [atRight_replicate] at hthere
  rw [atLeft_replicate, List.reverse_reverse] at hback
  -- over the word, back over what the pass wrote, and onto its first cell
  have hround := ((hthere.trans (hturn.left _ _ blankSymbol)).trans hback).trans
    (hstart.right _ _ blankSymbol)
  exact ⟨_, i - 1 + 1, j - 1 + 1, hround⟩

theorem reaches_of_all_crossed (hv : ∀ a ∈ v, a = 'X') (i j : Nat) :
    ∃ n t, equalAbc.Reaches n (passStart i j v) ⟨6, t⟩ := by
  have hscan := (scan_crossed hv).right (List.replicate i blankSymbol)
    (List.replicate j blankSymbol) blankSymbol
  have hend : equalAbc.Acts 1 blankSymbol 6 blankSymbol .left := by decide
  rw [atRight_replicate] at hscan
  exact ⟨_, _, hscan.trans (hend.left _ _ blankSymbol)⟩

theorem scanned_atRight (left r : List Char) (j : Nat) :
    (atRight blankSymbol left (r ++ List.replicate j blankSymbol)).scanned =
      r.headD blankSymbol := by
  cases r with
  | nil => rw [List.nil_append, atRight_replicate, List.headD_nil]
  | cons a r => rfl

theorem Refuses.reaches (h : Refuses v) (i j : Nat) :
    ∃ n k, equalAbc.Reaches n (passStart i j v) k ∧ equalAbc.halted k = true ∧
      equalAbc.accepting k = false := by
  obtain ⟨u, u', s, rest, rfl, hscan, hs, hrest⟩ := h
  have hreach := hscan.right (List.replicate i blankSymbol)
    (rest ++ List.replicate j blankSymbol) blankSymbol
  rw [← List.append_assoc] at hreach
  refine ⟨_, _, hreach, ?_, ?_⟩
  · apply halted_of_lookup?_eq_none
    rw [scanned_atRight]
    exact hrest
  · simpa [accepting] using hs

theorem exists_reaches_halted (hv : Crossed v) (i j : Nat) :
    ∃ n k, equalAbc.Reaches n (passStart i j v) k ∧ equalAbc.halted k = true ∧
      equalAbc.accepting k = decide (EqualBlocks (letters v)) := by
  -- a pass that goes through leaves one `a` less, and equal blocks just if it found them
  induction hn : v.count 'a' using Nat.strong_induction_on generalizing v i j with
  | _ n ih =>
    rcases pass_cases hv with hall | ⟨hrefuses, hblocks⟩ | ⟨v', hpass⟩
    · obtain ⟨n, t, hreach⟩ := reaches_of_all_crossed hall i j
      refine ⟨n, _, hreach, rfl, ?_⟩
      rw [letters_eq_nil hall]
      rfl
    · obtain ⟨n, k, hreach, hhalted, hrejects⟩ := hrefuses.reaches i j
      exact ⟨n, k, hreach, hhalted, by simp [hrejects, hblocks]⟩
    · obtain ⟨n₁, i', j', hround⟩ := hpass.reaches i j
      have hless : v'.count 'a' < n := hn ▸ hpass.count_lt
      obtain ⟨n₂, k, hreach, hhalted, hacc⟩ := ih _ hless hpass.crossed i' j' rfl
      refine ⟨_, k, hround.trans hreach, hhalted, ?_⟩
      rw [hacc]
      exact decide_eq_decide.2 hpass.equalBlocks_iff

theorem crossed_of_letters (hw : ∀ a ∈ w, a = 'a' ∨ a = 'b' ∨ a = 'c') :
    Crossed w ∧ letters w = w := by
  have hX : ∀ a ∈ w, a ≠ 'X' := by
    intro a ha heq
    have hletter := hw a ha
    rw [heq] at hletter
    revert hletter
    decide
  refine ⟨⟨?_, ?_⟩, ?_⟩
  · intro a ha
    rcases hw a ha with h | h | h
    · exact .inl h
    · exact .inr (.inl h)
    · exact .inr (.inr (.inl h))
  · exact List.pairwise_of_forall_mem_list fun _ _ b hb _ => hX b hb
  · simpa [letters] using hX

theorem equalAbc_decides (w : List Char) (hw : ∀ a ∈ w, a = 'a' ∨ a = 'b' ∨ a = 'c') :
    ∃ n, equalAbc.HaltsAfter (equalAbc.startRun (.ofInput w blankSymbol .first)) n ∧
      (∃ r, ∀ bound, equalAbc.run? bound (equalAbc.startRun (.ofInput w blankSymbol .first)) =
        if n ≤ bound then some (if EqualBlocks w then .accepted else .stuck, r) else none) ∧
      ∃ entry, lookup "equal-abc" = .ok entry ∧ ∀ bound, entry.machine.accepts? bound w =
        some (if n ≤ maxSteps then .ok (decide (EqualBlocks w))
          else .error (.stepLimitExceeded maxSteps)) := by
  obtain ⟨hcrossed, hletters⟩ := crossed_of_letters hw
  obtain ⟨n, k, hreach, hhalted, hacc⟩ := exists_reaches_halted hcrossed 0 0
  have hstart : passStart 0 0 w = ⟨1, .ofInput w blankSymbol .first⟩ := by
    rw [ofInput_first, passStart, List.replicate_zero, List.append_nil]
  rw [hletters] at hacc
  rw [hstart] at hreach
  refine ⟨n, hreach.haltsAfter hhalted 0, ⟨⟨k, n⟩, fun bound => ?_⟩, _, rfl, fun bound => ?_⟩
  · have hrun := hreach.run?_startRun hhalted bound
    rw [verdict, hacc] at hrun
    simpa only [decide_eq_true_eq] using hrun
  · have haccepts := hreach.accepts hhalted maxSteps
    rw [hacc] at haccepts
    exact congrArg some haccepts

theorem equalAbc_decides_two_of_each :
    (∀ a ∈ ['a', 'a', 'b', 'b', 'c', 'c'], a = 'a' ∨ a = 'b' ∨ a = 'c') ∧
      ∃ entry, lookup "equal-abc" = .ok entry ∧
        ∀ bound, entry.machine.accepts? bound ['a', 'a', 'b', 'b', 'c', 'c'] = some (.ok true) := by
  have hw : ∀ a ∈ ['a', 'a', 'b', 'b', 'c', 'c'], a = 'a' ∨ a = 'b' ∨ a = 'c' := by simp
  have hblocks : decide (EqualBlocks ['a', 'a', 'b', 'b', 'c', 'c']) = true := by decide
  obtain ⟨n, hhalts, _, entry, hentry, haccepts⟩ :=
    equalAbc_decides ['a', 'a', 'b', 'b', 'c', 'c'] hw
  have hdone : equalAbc.halted (equalAbc.afterSteps 35 (equalAbc.startRun
      (.ofInput ['a', 'a', 'b', 'b', 'c', 'c'] blankSymbol .first))).config = true := by decide +kernel
  have hle : n ≤ 35 := hhalts.2 (halted_iff_no_rule.1 hdone)
  have hlimit : n ≤ maxSteps := hle.trans (by decide)
  rw [hblocks] at haccepts
  simp only [if_pos hlimit] at haccepts
  exact ⟨hw, entry, hentry, haccepts⟩

end TableMachines.Catalog
