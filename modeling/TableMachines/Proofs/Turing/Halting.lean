import TableMachines.Proofs.Turing.TwoWay

namespace TableMachines

namespace Dtm

variable {S C : Type} [Ordered S] [Ordered C] {m : Dtm S C} {r : Run S C} {k : TuringConfig S C}

theorem stuck_iff : m.stuck k = true ↔ m.accepting k = false ∧ m.rules.nextTuring? k = none := by
  simp [stuck]

theorem halted_iff : m.halted k = true ↔ m.accepting k = true ∨ m.stuck k = true := by
  simp [halted]

theorem halted_iff_no_rule :
    m.halted k = true ↔ m.accepting k = true ∨ m.rules.nextTuring? k = none := by
  rw [halted_iff, stuck_iff]
  cases m.accepting k <;> simp

theorem advance_of_halted (h : m.halted r.config = true) (n : Nat) : m.advance n r = r := by
  cases n with
  | zero => rfl
  | succ n => rw [advance, if_pos h]

theorem advance_succ_of_not_halted (h : ¬ m.halted r.config = true) (n : Nat) :
    m.advance (n + 1) r = m.advance n (m.step r).2 := by
  rw [advance, if_neg h]

theorem advance_of_next (hacc : m.accepting r.config = false)
    (h : m.rules.nextTuring? r.config = some k) (n : Nat) :
    m.advance (n + 1) r = m.advance n ⟨k, r.steps + 1⟩ := by
  have hhalted : ¬ m.halted r.config = true := by simp [halted, stuck, hacc, h]
  rw [advance_succ_of_not_halted hhalted, step_of_some h]

theorem steps_step_le (m : Dtm S C) (r : Run S C) : (m.step r).2.steps ≤ r.steps + 1 := by
  cases h : m.rules.nextTuring? r.config with
  | none => simp [step_of_none h]
  | some k => simp [step_of_some h]

theorem steps_advance_le (m : Dtm S C) (n : Nat) (r : Run S C) :
    (m.advance n r).steps ≤ r.steps + n := by
  induction n generalizing r with
  | zero => exact Nat.le_refl _
  | succ n ih =>
    by_cases hhalted : m.halted r.config = true
    · rw [advance_of_halted hhalted]
      omega
    · rw [advance_succ_of_not_halted hhalted]
      have hstep := m.steps_step_le r
      have hrest := ih (m.step r).2
      omega

def JamsAt (m : Dtm S C) (limit : Nat) (r : Run S C) : Prop :=
  (m.advance limit r).steps = r.steps + limit ∧ m.stuck (m.advance limit r).config = true

theorem runFor_verdict (m : Dtm S C) (limit : Nat) (r : Run S C) :
    (m.runFor limit r).1.map (· == .accepted) =
      if m.accepting (m.advance limit r).config then .ok true
      else if m.stuck (m.advance limit r).config then .ok false
      else .error (.stepLimitExceeded limit) := by
  unfold runFor
  by_cases hacc : m.accepting (m.advance limit r).config = true
  · simp [halted, verdict, hacc, Except.map]
  · by_cases hstuck : m.stuck (m.advance limit r).config = true
    · simp [halted, verdict, hacc, hstuck, Except.map]
    · simp [halted, hacc, hstuck, Except.map]

theorem afterSteps_succ (n : Nat) (r : Run S C) :
    m.afterSteps (n + 1) r = m.afterSteps n (m.step r).2 :=
  Function.iterate_succ_apply _ n r

theorem afterSteps_succ_eq_step (n : Nat) (r : Run S C) :
    m.afterSteps (n + 1) r = (m.step (m.afterSteps n r)).2 :=
  Function.iterate_succ_apply' _ n r

theorem nextTuring?_of_not_halted (h : ¬ m.halted r.config = true) :
    m.rules.nextTuring? r.config = some (m.step r).2.config := by
  rw [halted_iff_no_rule, not_or] at h
  obtain ⟨k, hk⟩ := Option.ne_none_iff_exists'.1 h.2
  rw [step_of_some hk, hk]

theorem steps_step_of_not_halted (h : ¬ m.halted r.config = true) :
    (m.step r).2.steps = r.steps + 1 := by
  rw [step_of_some (nextTuring?_of_not_halted h)]

theorem steps_afterSteps {n : Nat} (h : ∀ i < n, ¬ m.halted (m.afterSteps i r).config = true) :
    (m.afterSteps n r).steps = r.steps + n := by
  induction n with
  | zero => rfl
  | succ n ih =>
    have hsteps := ih fun i hi => h i (Nat.lt_succ_of_lt hi)
    rw [afterSteps_succ_eq_step, steps_step_of_not_halted (h n (Nat.lt_succ_self n)), hsteps]
    omega

theorem advance_eq_afterSteps {n : Nat}
    (h : ∀ i < n, ¬ m.halted (m.afterSteps i r).config = true) :
    m.advance n r = m.afterSteps n r := by
  induction n generalizing r with
  | zero => rfl
  | succ n ih =>
    have hnow : ¬ m.halted r.config = true := h 0 (Nat.succ_pos n)
    have hlater : ∀ i < n, ¬ m.halted (m.afterSteps i (m.step r).2).config = true := by
      intro i hi
      rw [← afterSteps_succ]
      exact h (i + 1) (Nat.succ_lt_succ hi)
    rw [advance_succ_of_not_halted hnow, ih hlater, afterSteps_succ]

theorem advance_add (a b : Nat) (r : Run S C) :
    m.advance (a + b) r = m.advance b (m.advance a r) := by
  induction a generalizing r with
  | zero =>
    rw [Nat.zero_add]
    rfl
  | succ a ih =>
    by_cases hr : m.halted r.config = true
    · simp only [advance_of_halted hr]
    · rw [Nat.succ_add, advance_succ_of_not_halted hr, advance_succ_of_not_halted hr, ih]

theorem advance_of_le {a b : Nat} (h : m.halted (m.advance a r).config = true) (hab : a ≤ b) :
    m.advance b r = m.advance a r := by
  obtain ⟨d, rfl⟩ := Nat.exists_eq_add_of_le hab
  rw [advance_add, advance_of_halted h]

theorem runFor_eq_ok {n : Nat} (h : m.halted (m.advance n r).config = true) :
    m.runFor n r = (.ok (m.verdict (m.advance n r).config), m.advance n r) := by
  simp only [runFor, if_pos h]

theorem runFor_eq_error {n : Nat} (h : ¬ m.halted (m.advance n r).config = true) :
    m.runFor n r = (.error (.stepLimitExceeded n), m.advance n r) := by
  simp only [runFor, if_neg h]

theorem runFor_fst_eq_ok_iff {n : Nat} {v : Halt} : (m.runFor n r).1 = .ok v ↔
    m.halted (m.advance n r).config = true ∧ m.verdict (m.advance n r).config = v := by
  by_cases h : m.halted (m.advance n r).config = true
  · simp [runFor_eq_ok h, h]
  · simp [runFor_eq_error h, h]

theorem runFor_snd (n : Nat) (r : Run S C) : (m.runFor n r).2 = m.advance n r := rfl

theorem accepts_eq_ok_iff {tape : Tape C} {n : Nat} {v : Bool} : m.accepts tape n = .ok v ↔
    m.halted (m.advance n (m.startRun tape)).config = true ∧
      (m.verdict (m.advance n (m.startRun tape)).config == .accepted) = v := by
  unfold accepts
  by_cases h : m.halted (m.advance n (m.startRun tape)).config = true
  · simp [runFor_eq_ok h, h, Except.map]
  · simp [runFor_eq_error h, h, Except.map]

theorem accepts_of_le {tape : Tape C} {n n' : Nat} {v : Bool} (h : m.accepts tape n = .ok v)
    (hn : n ≤ n') : m.accepts tape n' = .ok v := by
  rw [accepts_eq_ok_iff] at h ⊢
  rwa [advance_of_le h.1 hn]

end Dtm

end TableMachines
