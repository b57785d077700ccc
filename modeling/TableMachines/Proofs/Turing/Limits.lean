import Mathlib.Data.Nat.Find
import Mathlib.Order.Bounds.Defs
import TableMachines.Catalog.Tables
import TableMachines.Proofs.Turing.Halting

namespace TableMachines

namespace Dtm

variable {S C : Type} [Ordered S] [Ordered C]

def HaltsAfter (m : Dtm S C) (r : Run S C) (h : Nat) : Prop :=
  IsLeast {n | m.accepting (m.afterSteps n r).config = true ∨
    m.rules.nextTuring? (m.afterSteps n r).config = none} h

variable {m : Dtm S C} {r : Run S C} {h n : Nat}

theorem haltsAfter_iff : m.HaltsAfter r h ↔ m.halted (m.afterSteps h r).config = true ∧
    ∀ n < h, ¬ m.halted (m.afterSteps n r).config = true := by
  simp only [halted_iff_no_rule]
  constructor
  · intro hh
    refine ⟨hh.1, ?_⟩
    intro n hn hover
    have hle : h ≤ n := hh.2 hover
    omega
  · rintro ⟨hover, hgoing⟩
    refine ⟨hover, ?_⟩
    intro n hn
    by_contra hlt
    exact hgoing n (by omega) hn

theorem HaltsAfter.halted (hh : m.HaltsAfter r h) : m.halted (m.afterSteps h r).config = true :=
  (haltsAfter_iff.1 hh).1

theorem HaltsAfter.not_halted (hh : m.HaltsAfter r h) (hn : n < h) :
    ¬ m.halted (m.afterSteps n r).config = true :=
  (haltsAfter_iff.1 hh).2 n hn

theorem exists_haltsAfter (hn : m.halted (m.afterSteps n r).config = true) :
    ∃ h ≤ n, m.HaltsAfter r h := by
  have hex : ∃ i, m.halted (m.afterSteps i r).config = true := ⟨n, hn⟩
  refine ⟨Nat.find hex, Nat.find_min' hex hn, haltsAfter_iff.2 ⟨Nat.find_spec hex, ?_⟩⟩
  intro i hi
  exact Nat.find_min hex hi

theorem HaltsAfter.advance (hh : m.HaltsAfter r h) (hn : h ≤ n) :
    m.advance n r = m.afterSteps h r := by
  have hreach : m.advance h r = m.afterSteps h r :=
    advance_eq_afterSteps fun i hi => hh.not_halted hi
  rw [← hreach]
  apply advance_of_le _ hn
  rw [hreach]
  exact hh.halted

theorem HaltsAfter.steps (hh : m.HaltsAfter r h) : (m.afterSteps h r).steps = r.steps + h :=
  steps_afterSteps fun _ hi => hh.not_halted hi

theorem not_halted_of_no_halt (hno : ∀ h ≤ n, ¬ m.HaltsAfter r h) {i : Nat} (hi : i ≤ n) :
    ¬ m.halted (m.afterSteps i r).config = true := by
  intro hhalted
  obtain ⟨h, hle, hh⟩ := exists_haltsAfter hhalted
  exact hno h (Nat.le_trans hle hi) hh

theorem runFor_of_haltsAfter (hh : m.HaltsAfter r h) (hn : h ≤ n) :
    m.runFor n r = (.ok (m.verdict (m.afterSteps h r).config), m.afterSteps h r) := by
  have hadvance := hh.advance hn
  have hhalted : m.halted (m.advance n r).config = true := by
    rw [hadvance]
    exact hh.halted
  rw [runFor_eq_ok hhalted, hadvance]

theorem runFor_of_no_halt (hno : ∀ h ≤ n, ¬ m.HaltsAfter r h) :
    m.runFor n r = (.error (.stepLimitExceeded n), m.afterSteps n r) := by
  have hadvance : m.advance n r = m.afterSteps n r :=
    advance_eq_afterSteps fun i hi => not_halted_of_no_halt hno (Nat.le_of_lt hi)
  have hgoing : ¬ m.halted (m.advance n r).config = true := by
    rw [hadvance]
    exact not_halted_of_no_halt hno (Nat.le_refl n)
  rw [runFor_eq_error hgoing, hadvance]

theorem run?_of_haltsAfter (hh : m.HaltsAfter r h) (bound : Nat) :
    m.run? bound r =
      if h ≤ bound then some (m.verdict (m.afterSteps h r).config, m.afterSteps h r) else none := by
  unfold run?
  by_cases hb : h ≤ bound
  · simp only [hh.advance hb, hh.halted, if_pos hb, if_true]
  · have hearly : m.advance bound r = m.afterSteps bound r :=
      advance_eq_afterSteps fun i hi => hh.not_halted (by omega)
    have hgoing : ¬ m.halted (m.afterSteps bound r).config = true := hh.not_halted (by omega)
    simp only [hearly, if_neg hgoing, if_neg hb]

theorem runFor_obeys_limit (m : Dtm S C) (r : Run S C) :
    (∀ h n, m.HaltsAfter r h → h ≤ n →
      m.runFor n r = (.ok (if m.accepting (m.afterSteps h r).config then .accepted else .stuck),
        m.afterSteps h r) ∧ (m.afterSteps h r).steps = r.steps + h) ∧
    (∀ n, (∀ h ≤ n, ¬ m.HaltsAfter r h) →
      m.runFor n r = (.error (.stepLimitExceeded n), m.afterSteps n r) ∧
        (m.afterSteps n r).steps = r.steps + n) ∧
    (∀ h, m.HaltsAfter r h → ∀ bound, m.run? bound r =
      if h ≤ bound then some (if m.accepting (m.afterSteps h r).config then .accepted else .stuck,
        m.afterSteps h r) else none) ∧
    (∀ a b, (m.runFor b (m.runFor a r).2).2 = (m.runFor (a + b) r).2 ∧
      ∀ v, (m.runFor b (m.runFor a r).2).1 = .ok v ↔ (m.runFor (a + b) r).1 = .ok v) ∧
    (∀ tape n n' v v', m.accepts tape n = .ok v → m.accepts tape n' = .ok v' → v = v') ∧
    ∀ tape n n' v, m.accepts tape n = .ok v → n ≤ n' → m.accepts tape n' = .ok v := by
  refine ⟨?_, ?_, ?_, ?_, ?_, ?_⟩
  · intro h n hh hn
    exact ⟨runFor_of_haltsAfter hh hn, hh.steps⟩
  · intro n hno
    refine ⟨runFor_of_no_halt hno, steps_afterSteps ?_⟩
    intro i hi
    exact not_halted_of_no_halt hno (Nat.le_of_lt hi)
  · intro h hh bound
    exact run?_of_haltsAfter hh bound
  · intro a b
    refine ⟨?_, ?_⟩
    · simp only [runFor_snd, advance_add]
    · intro v
      simp only [runFor_fst_eq_ok_iff, runFor_snd, advance_add]
  · intro tape n n' v v' hv hv'
    rcases Nat.le_total n n' with hn | hn
    · have hlater := accepts_of_le hv hn
      rw [hv'] at hlater
      exact (Except.ok.inj hlater).symm
    · have hlater := accepts_of_le hv' hn
      rw [hv] at hlater
      exact Except.ok.inj hlater
  · intro tape n n' v hv hn
    exact accepts_of_le hv hn

theorem runFor_obeys_limit_carry :
    let m := Catalog.binaryIncrement
    let tape : Tape Char := .ofInput ['1'] '_' .last
    let r := (m.step (m.startRun tape)).2
    m.HaltsAfter r 3 ∧ (∀ h ≤ 2, ¬ m.HaltsAfter r h) ∧
      m.runFor 5 r = (.ok .accepted, m.afterSteps 3 r) ∧ (m.afterSteps 3 r).steps = 4 ∧
      m.runFor 2 r = (.error (.stepLimitExceeded 2), m.afterSteps 2 r) ∧
      m.run? 3 r = some (.accepted, m.afterSteps 3 r) ∧
      m.accepts tape 4 = .ok true ∧ m.accepts tape 9 = .ok true := by
  intro m tape r
  have hhalts : m.HaltsAfter r 3 := haltsAfter_iff.2 (by decide)
  have hno : ∀ h ≤ 2, ¬ m.HaltsAfter r h := by
    intro h hle hh
    have hearly : ¬ m.halted (m.afterSteps h r).config = true := hhalts.not_halted (by omega)
    exact hearly hh.halted
  have haccepts : m.accepts tape 4 = .ok true := by decide
  obtain ⟨hwithin, hbeyond, hend, _, _, hgrows⟩ := runFor_obeys_limit m r
  refine ⟨hhalts, hno, ?_, ?_, ?_, ?_, haccepts, ?_⟩
  · exact (hwithin 3 5 hhalts (by decide)).1
  · exact (hwithin 3 5 hhalts (by decide)).2
  · exact (hbeyond 2 hno).1
  · exact hend 3 hhalts 3
  · exact hgrows tape 4 9 true haccepts (by decide)

end Dtm

end TableMachines
