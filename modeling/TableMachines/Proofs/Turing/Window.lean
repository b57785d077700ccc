import TableMachines.Proofs.Turing.Scans

namespace TableMachines

namespace Tape

variable {C : Type} {low high : Int} {t t' : Tape C}

def AgreeOn (low high : Int) (t t' : Tape C) : Prop :=
  ∀ i, low ≤ i → i ≤ high → t.cell i = t'.cell i

theorem AgreeOn.scanned (h : AgreeOn low high t t') (hlow : low ≤ 0) (hhigh : 0 ≤ high) :
    t.scanned = t'.scanned := by
  rw [← cell_zero, ← cell_zero]
  exact h 0 hlow hhigh

theorem AgreeOn.write_move (h : AgreeOn low high t t') (a : C) (d : Direction) :
    AgreeOn (low - d.offset) (high - d.offset) ((t.write a).move d) ((t'.write a).move d) := by
  intro i hlow hhigh
  rw [cell_move, cell_move, cell_write, cell_write]
  rw [h (i + d.offset) (by omega) (by omega)]

theorem cell_write_move (a : C) (d : Direction) {i : Int} (hi : i ≠ 0) :
    ((t.write a).move d).cell (i - d.offset) = t.cell i := by
  rw [cell_move, cell_write, Int.sub_add_cancel, if_neg hi]

end Tape

theorem Direction.offset_bounds (d : Direction) : -1 ≤ d.offset ∧ d.offset ≤ 1 := by
  cases d <;> simp [offset]

namespace Dtm

open Tape

variable {S C : Type} [Ordered S] [Ordered C] {m : Dtm S C} {low high : Int} {r r' : Run S C}

def shift (m : Dtm S C) (r : Run S C) : Int :=
  ((m.lookup? r.config.state r.config.tape.scanned).map (·.direction.offset)).getD 0

def travel (m : Dtm S C) : Nat → Run S C → Int
  | 0, _ => 0
  | n + 1, r => if m.halted r.config then 0 else m.shift r + m.travel n (m.step r).2

structure AlikeOn (low high : Int) (r r' : Run S C) : Prop where
  state : r.config.state = r'.config.state
  steps : r.steps = r'.steps
  cells : AgreeOn low high r.config.tape r'.config.tape

theorem step_eq (m : Dtm S C) (r : Run S C) :
    (m.step r).2 = ((m.lookup? r.config.state r.config.tape.scanned).map fun rule =>
      (⟨Rule.follow rule r.config, r.steps + 1⟩ : Run S C)).getD r := by
  have hnext := m.nextTuring?_eq r.config
  cases hrule : m.lookup? r.config.state r.config.tape.scanned with
  | none =>
    rw [hrule] at hnext
    rw [step_of_none hnext]
    rfl
  | some rule =>
    rw [hrule] at hnext
    rw [step_of_some hnext]
    rfl

theorem shift_bounds (m : Dtm S C) (r : Run S C) : -1 ≤ m.shift r ∧ m.shift r ≤ 1 := by
  unfold shift
  cases m.lookup? r.config.state r.config.tape.scanned with
  | none => simp
  | some rule => exact rule.direction.offset_bounds

theorem cell_step (m : Dtm S C) (r : Run S C) {i : Int} (hi : i ≠ 0) :
    (m.step r).2.config.tape.cell (i - m.shift r) = r.config.tape.cell i := by
  rw [step_eq, shift]
  cases m.lookup? r.config.state r.config.tape.scanned with
  | none => simp
  | some rule => exact cell_write_move rule.write rule.direction hi

theorem cell_advance (m : Dtm S C) (n : Nat) (r : Run S C) {i : Int} (hi : n ≤ i.natAbs) :
    (m.advance n r).config.tape.cell (i - m.travel n r) = r.config.tape.cell i := by
  induction n generalizing r i with
  | zero =>
    rw [travel, Int.sub_zero]
    rfl
  | succ n ih =>
    unfold advance travel
    split
    · rw [Int.sub_zero]
    · have hbounds := m.shift_bounds r
      have hfar : n ≤ (i - m.shift r).natAbs := by omega
      have hrest := ih (m.step r).2 hfar
      rw [← Int.sub_sub, hrest]
      apply cell_step
      omega

section Alike

variable (h : AlikeOn low high r r') (hlow : low ≤ 0) (hhigh : 0 ≤ high)
include h hlow hhigh

theorem AlikeOn.lookup? (m : Dtm S C) :
    m.lookup? r.config.state r.config.tape.scanned =
      m.lookup? r'.config.state r'.config.tape.scanned := by
  rw [h.state, h.cells.scanned hlow hhigh]

theorem AlikeOn.shift (m : Dtm S C) : m.shift r = m.shift r' := by
  rw [Dtm.shift, Dtm.shift, h.lookup? hlow hhigh m]

theorem AlikeOn.halted (m : Dtm S C) : m.halted r.config = m.halted r'.config := by
  rw [Bool.eq_iff_iff, halted_iff_no_rule, halted_iff_no_rule, nextTuring?_eq, nextTuring?_eq,
    Option.map_eq_none_iff, Option.map_eq_none_iff, h.lookup? hlow hhigh m, accepting, accepting,
    h.state]

theorem AlikeOn.step (m : Dtm S C) :
    AlikeOn (low - m.shift r) (high - m.shift r) (m.step r).2 (m.step r').2 := by
  rw [step_eq, step_eq, ← h.lookup? hlow hhigh m, Dtm.shift]
  cases m.lookup? r.config.state r.config.tape.scanned with
  | none => simpa using h
  | some rule =>
    exact
      { state := rfl
        steps := congrArg (· + 1) h.steps
        cells := h.cells.write_move rule.write rule.direction }

end Alike

theorem AlikeOn.advance (h : AlikeOn low high r r') {n : Nat} (hlow : low ≤ -n) (hhigh : n ≤ high) :
    m.travel n r = m.travel n r' ∧
      AlikeOn (low - m.travel n r) (high - m.travel n r) (m.advance n r) (m.advance n r') := by
  induction n generalizing low high r r' with
  | zero =>
    refine ⟨rfl, ?_⟩
    rw [travel, Int.sub_zero, Int.sub_zero]
    exact h
  | succ n ih =>
    have hlow' : low ≤ 0 := by omega
    have hhigh' : 0 ≤ high := by omega
    unfold Dtm.advance travel
    rw [← h.halted hlow' hhigh' m]
    split
    · refine ⟨rfl, ?_⟩
      rw [Int.sub_zero, Int.sub_zero]
      exact h
    · -- the step moves the window by one cell at most, and one step less is left
      have hbounds := m.shift_bounds r
      have hstep := h.step hlow' hhigh' m
      obtain ⟨htravel, hrest⟩ := ih hstep (by omega) (by omega)
      rw [← h.shift hlow' hhigh' m, ← htravel, ← Int.sub_sub, ← Int.sub_sub]
      exact ⟨rfl, hrest⟩

theorem travel_bounds (m : Dtm S C) (n : Nat) (r : Run S C) :
    -n ≤ m.travel n r ∧ m.travel n r ≤ n := by
  induction n generalizing r with
  | zero => simp [travel]
  | succ n ih =>
    unfold travel
    split
    · omega
    · have hshift := m.shift_bounds r
      have hrest := ih (m.step r).2
      omega

theorem AlikeOn.runFor_fst (h : AlikeOn low high r r') {n : Nat} (hlow : low ≤ -n) (hhigh : n ≤ high) :
    (m.runFor n r).1 = (m.runFor n r').1 := by
  have hbounds := m.travel_bounds n r
  have hend := (h.advance (m := m) hlow hhigh).2
  have hhalted := hend.halted (by omega) (by omega) m
  have hverdict : m.verdict (m.advance n r).config = m.verdict (m.advance n r').config := by
    rw [verdict, verdict, accepting, accepting, hend.state]
  simp only [runFor, hhalted, hverdict]

theorem runFor_within_reach (m : Dtm S C) (n : Nat) (s : S) (steps : Nat) (t t' : Tape C)
    (h : AgreeOn (-n) n t t') :
    let r : Run S C := ⟨⟨s, t⟩, steps⟩
    let r' : Run S C := ⟨⟨s, t'⟩, steps⟩
    (m.runFor n r).1 = (m.runFor n r').1 ∧
      (m.runFor n r).2.steps = (m.runFor n r').2.steps ∧
      (m.runFor n r).2.config.state = (m.runFor n r').2.config.state ∧
      m.travel n r = m.travel n r' ∧
      (∀ i : Int, -n ≤ i → i ≤ n →
        (m.runFor n r).2.config.tape.cell (i - m.travel n r) =
          (m.runFor n r').2.config.tape.cell (i - m.travel n r')) ∧
      ∀ i : Int, n ≤ i.natAbs →
        (m.runFor n r).2.config.tape.cell (i - m.travel n r) = t.cell i ∧
          (m.runFor n r').2.config.tape.cell (i - m.travel n r') = t'.cell i := by
  intro r r'
  have hstart : AlikeOn (-n) n r r' := ⟨rfl, rfl, h⟩
  have hlow : (-n : Int) ≤ -n := Int.le_refl _
  have hhigh : (n : Int) ≤ n := Int.le_refl _
  obtain ⟨htravel, hend⟩ := hstart.advance (m := m) hlow hhigh
  refine ⟨hstart.runFor_fst hlow hhigh, hend.steps, hend.state, htravel, ?_, ?_⟩
  · intro i hlow hhigh
    rw [← htravel]
    apply hend.cells
    · omega
    · omega
  · intro i hi
    exact ⟨m.cell_advance n r hi, m.cell_advance n r' hi⟩

theorem runFor_within_reach_carry :
    let m := Catalog.binaryIncrement
    let t : Tape Char := ⟨['1', '1', '0'], '1', [], '_'⟩
    let t' : Tape Char := ⟨['1', '1'], '1', ['_', '_', '0'], '1'⟩
    AgreeOn (-2) 2 t t' ∧
      (m.runFor 2 ⟨⟨1, t⟩, 0⟩).1 = .error (.stepLimitExceeded 2) ∧
      (m.runFor 2 ⟨⟨1, t⟩, 0⟩).1 = (m.runFor 2 ⟨⟨1, t'⟩, 0⟩).1 ∧
      (m.runFor 2 ⟨⟨1, t⟩, 0⟩).2.steps = (m.runFor 2 ⟨⟨1, t'⟩, 0⟩).2.steps ∧
      m.travel 2 ⟨⟨1, t⟩, 0⟩ = -2 ∧ m.travel 2 ⟨⟨1, t'⟩, 0⟩ = -2 ∧
      (m.runFor 2 ⟨⟨1, t⟩, 0⟩).2.config.tape.cell 4 =
        (m.runFor 2 ⟨⟨1, t'⟩, 0⟩).2.config.tape.cell 4 ∧
      (m.runFor 2 ⟨⟨1, t'⟩, 0⟩).2.config.tape.cell 5 = '0' := by
  intro m t t'
  have hagree : AgreeOn (-2) 2 t t' := by
    intro i hlow hhigh
    have hi : i = -2 ∨ i = -1 ∨ i = 0 ∨ i = 1 ∨ i = 2 := by omega
    rcases hi with rfl | rfl | rfl | rfl | rfl <;> rfl
  have htravel : m.travel 2 ⟨⟨1, t⟩, 0⟩ = -2 := by decide
  obtain ⟨hresult, hsteps, _, htravels, hcells, hfar⟩ := runFor_within_reach m 2 1 0 t t' hagree
  rw [htravel] at htravels
  rw [htravel, ← htravels] at hcells hfar
  refine ⟨hagree, by decide, hresult, hsteps, htravel, htravels.symm, ?_, ?_⟩
  · exact hcells 2 (by decide) (by decide)
  · exact (hfar 3 (by decide)).2

end Dtm

end TableMachines
