import TableMachines.Catalog.Tables
import TableMachines.CommandLine.Outcome
import TableMachines.Proofs.Turing.Scans

/-!
The plain run looks once more after its last step whether the machine has halted, the traced run
then looks for acceptance only.
-/

namespace TableMachines

def Machine.JamsAtLimit (input : List Char) : Machine → Prop
  | .dtm m head => m.JamsAt maxSteps (m.startRun (.ofInput input blankSymbol head))
  | _ => False

namespace CommandLine

open Dtm

variable {m : Dtm UInt32 Char} {r : Dtm.Run UInt32 Char} {n : Nat} {bound : Nat}

theorem traceFrom_of_accepting (h : m.accepting r.config = true) (n : Nat) :
    (traceFrom m n r).2 = .ok true := by
  unfold traceFrom
  rw [if_pos h]

theorem traceFrom_zero (h : m.accepting r.config = false) :
    (traceFrom m 0 r).2 = .error (.stepLimitExceeded maxSteps) := by
  simp [traceFrom, h]

theorem traceFrom_of_none (hacc : m.accepting r.config = false)
    (h : m.rules.nextTuring? r.config = none) (n : Nat) : (traceFrom m (n + 1) r).2 = .ok false := by
  simp [traceFrom, hacc, step_of_none h, verdict]

theorem traceFrom_of_some {k : TuringConfig UInt32 Char} (hacc : m.accepting r.config = false)
    (h : m.rules.nextTuring? r.config = some k) (n : Nat) :
    (traceFrom m (n + 1) r).2 = (traceFrom m n ⟨k, r.steps + 1⟩).2 := by
  simp [traceFrom, hacc, step_of_some h]

theorem traceFrom_verdict (m : Dtm UInt32 Char) (n : Nat) (r : Dtm.Run UInt32 Char) :
    (traceFrom m n r).2 =
      if m.accepting (m.advance n r).config then .ok true
      else if m.stuck (m.advance n r).config && decide ((m.advance n r).steps < r.steps + n) then
        .ok false
      else .error (.stepLimitExceeded maxSteps) := by
  induction n generalizing r with
  | zero =>
    cases hacc : m.accepting r.config with
    | true => simp [traceFrom_of_accepting hacc, advance, hacc]
    | false => simp [traceFrom_zero hacc, advance, hacc]
  | succ n ih =>
    cases hacc : m.accepting r.config with
    | true =>
      rw [traceFrom_of_accepting hacc, advance_of_halted (halted_iff.2 (.inl hacc)), if_pos hacc]
    | false =>
      cases h : m.rules.nextTuring? r.config with
      | none =>
        have hstuck := stuck_iff.2 ⟨hacc, h⟩
        rw [traceFrom_of_none hacc h, advance_of_halted (halted_iff.2 (.inr hstuck))]
        simp [hacc, hstuck]
      | some k =>
        rw [traceFrom_of_some hacc h, advance_of_next hacc h, ih, Nat.add_right_comm]
        rfl

theorem verdicts_of_jamsAt (h : m.JamsAt maxSteps r) :
    (traceFrom m maxSteps r).2 = .error (.stepLimitExceeded maxSteps) ∧
      (m.runFor maxSteps r).1.map (· == .accepted) = .ok false := by
  obtain ⟨hsteps, hstuck⟩ := h
  rw [traceFrom_verdict, runFor_verdict]
  simp [hsteps, hstuck, (stuck_iff.1 hstuck).1]

theorem verdicts_of_not_jamsAt (h : ¬ m.JamsAt maxSteps r) :
    (traceFrom m maxSteps r).2 = (m.runFor maxSteps r).1.map (· == .accepted) := by
  rw [traceFrom_verdict, runFor_verdict]
  by_cases hstuck : m.stuck (m.advance maxSteps r).config = true
  · have hle := m.steps_advance_le maxSteps r
    have hne : (m.advance maxSteps r).steps ≠ r.steps + maxSteps := fun heq => h ⟨heq, hstuck⟩
    have hlt : (m.advance maxSteps r).steps < r.steps + maxSteps := by omega
    simp [hstuck, hlt]
  · simp [hstuck]

theorem traced?_snd (bound : Nat) (m : Dtm UInt32 Char) (head : HeadStart) (input : List Char) :
    (traced? bound (.dtm m head) input).map Prod.snd =
      some (traceFrom m maxSteps (m.startRun (.ofInput input blankSymbol head))).2 := by
  rfl

theorem jamsAt_carry (n : Nat) :
    Catalog.binaryIncrement.JamsAt (n + 1)
      (Catalog.binaryIncrement.startRun
        (.ofInput ('2' :: List.replicate (n + 1) '1') blankSymbol .last)) := by
  have hcarry : Catalog.binaryIncrement.Acts 1 '1' 1 '0' .left := by decide
  have hreach := (Scan.replicate hcarry (n + 1)).left ['2'] [] blankSymbol
  have hinput : ('2' :: List.replicate (n + 1) '1').reverse = List.replicate (n + 1) '1' ++ ['2'] := by
    rw [List.reverse_cons, List.reverse_replicate]
  rw [List.length_replicate, ← hinput, ← Tape.ofInput_last] at hreach
  have hadvance := hreach.advance 0
  unfold JamsAt
  rw [startRun, show Catalog.binaryIncrement.start = 1 from rfl, hadvance]
  exact ⟨rfl, rfl⟩

/-- The plain run rejects where the machine is stuck after the last step that it is allowed; the traced
run says there that the steps ran out. -/
theorem traced?_verdict_eq_iff (bound : Nat) (machine : Machine) (input : List Char) :
    ((traced? bound machine input).map Prod.snd = machine.accepts? bound input ↔
      ¬ machine.JamsAtLimit input) ∧
    (machine.JamsAtLimit input →
      (traced? bound machine input).map Prod.snd = some (.error (.stepLimitExceeded maxSteps)) ∧
        machine.accepts? bound input = some (.ok false)) := by
  cases machine with
  | dtm m head =>
    let r := m.startRun (.ofInput input blankSymbol head)
    rw [traced?_snd]
    by_cases h : m.JamsAt maxSteps r
    · obtain ⟨htrace, hrun⟩ := verdicts_of_jamsAt h
      have haccepts : (Machine.dtm m head).accepts? bound input = some (.ok false) := congrArg some hrun
      rw [htrace, haccepts]
      exact ⟨⟨nofun, fun hnot => absurd h hnot⟩, fun _ => ⟨rfl, rfl⟩⟩
    · refine ⟨⟨fun _ => h, fun _ => ?_⟩, fun hjams => absurd hjams h⟩
      exact congrArg some (verdicts_of_not_jamsAt h)
  | _ => simp [traced?, Machine.JamsAtLimit, Function.comp_def]

theorem traced?_verdict_eq_iff_carry :
    let machine := Machine.dtm Catalog.binaryIncrement .last
    let input := '2' :: List.replicate maxSteps '1'
    machine.JamsAtLimit input ∧ ∀ bound,
      (traced? bound machine input).map Prod.snd = some (.error (.stepLimitExceeded maxSteps)) ∧
        machine.accepts? bound input = some (.ok false) := by
  intro machine input
  have hjams : machine.JamsAtLimit input := jamsAt_carry 9999
  exact ⟨hjams, fun bound => (traced?_verdict_eq_iff bound machine input).2 hjams⟩

theorem not_traced?_verdict_eq :
    ¬ ∀ name entry bound (input : List Char), Catalog.lookup name = .ok entry →
      (traced? bound entry.machine input).map Prod.snd = entry.machine.accepts? bound input := by
  intro h
  obtain ⟨htrace, hrun⟩ := verdicts_of_jamsAt (jamsAt_carry 9999)
  have heq := h "binary-increment" _ 0 ('2' :: List.replicate maxSteps '1') rfl
  have haccepts : (Machine.dtm Catalog.binaryIncrement .last).accepts? 0
      ('2' :: List.replicate maxSteps '1') = some (.ok false) := congrArg some hrun
  rw [traced?_snd, haccepts] at heq
  cases htrace.symm.trans (Option.some.inj heq)

end CommandLine

end TableMachines
