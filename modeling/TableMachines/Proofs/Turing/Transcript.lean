import TableMachines.Proofs.Turing.Limits
import TableMachines.Turing.Event

namespace TableMachines.Dtm

variable {S C : Type} [Ordered S] [Ordered C] {m : Dtm S C} {r : Run S C} {n : Nat}

structure Moved (m : Dtm S C) (limit : Nat) (r : Run S C) (n : Nat) : Prop where
  final : m.advance limit r = m.afterSteps n r
  steps : (m.advance limit r).steps = r.steps + n
  next : ∀ i < n, m.rules.nextTuring? (m.afterSteps i r).config = some (m.afterSteps (i + 1) r).config
  notes : m.advanceNotes limit r =
    (List.range n).map fun i => .moved (r.steps + i) (m.afterSteps (i + 1) r).config

theorem note_of_not_halted (h : ¬ m.halted r.config = true) :
    m.note r = [.moved r.steps (m.step r).2.config] := by
  rw [note, nextTuring?_of_not_halted h]

theorem Moved.zero (h : m.advance n r = r) (hnotes : m.advanceNotes n r = []) : m.Moved n r 0 where
  final := h
  steps := congrArg Run.steps h
  next i hi := absurd hi (Nat.not_lt_zero i)
  notes := hnotes

theorem Moved.succ {limit : Nat} (hgoing : ¬ m.halted r.config = true)
    (h : m.Moved limit (m.step r).2 n) : m.Moved (limit + 1) r (n + 1) where
  final := by
    rw [advance_succ_of_not_halted hgoing, h.final, afterSteps_succ]
  steps := by
    rw [advance_succ_of_not_halted hgoing, h.steps, steps_step_of_not_halted hgoing]
    omega
  next i hi := by
    cases i with
    | zero => exact nextTuring?_of_not_halted hgoing
    | succ i =>
      rw [afterSteps_succ, afterSteps_succ (i + 1)]
      exact h.next i (Nat.lt_of_succ_lt_succ hi)
  notes := by
    rw [advanceNotes, if_neg hgoing, note_of_not_halted hgoing, h.notes, List.range_succ_eq_map,
      List.map_cons, List.map_map]
    simp only [steps_step_of_not_halted hgoing, Function.comp_def, afterSteps_succ _ r,
      Nat.succ_eq_add_one, Nat.add_assoc, Nat.add_comm 1]
    rfl

theorem exists_moved (m : Dtm S C) (limit : Nat) (r : Run S C) : ∃ n, m.Moved limit r n := by
  induction limit generalizing r with
  | zero => exact ⟨0, .zero rfl rfl⟩
  | succ limit ih =>
    by_cases hhalted : m.halted r.config = true
    · exact ⟨0, .zero (advance_of_halted hhalted _) (if_pos hhalted)⟩
    · obtain ⟨n, hn⟩ := ih (m.step r).2
      exact ⟨n + 1, hn.succ hhalted⟩

structure Logged [Inspect S] [Inspect C] (m : Dtm S C) (limit : Nat) (r : Run S C)
    (moves rest : List (TuringEvent S C)) : Prop where
  notes : m.runForNotes limit r = moves ++ rest
  final : (m.runFor limit r).2 = m.afterSteps moves.length r
  steps : (m.runFor limit r).2.steps = r.steps + moves.length
  move : ∀ i e, moves[i]? = some e → (Event.entry e).level = .trace ∧
    ∃ k, m.rules.nextTuring? (m.afterSteps i r).config = some k ∧ e = .moved (r.steps + i) k
  last : ∀ e, moves.getLast? = some e → ∃ i, e = .moved i (m.runFor limit r).2.config
  rest : (rest = [] ∧ ∃ v, (m.runFor limit r).1 = .ok v) ∨
    ∃ e, rest = [e] ∧ (m.runFor limit r).1 = .error (.stepLimitExceeded limit) ∧
      e = .limitExceeded limit ∧ (Event.entry e).level = .debug

theorem exists_logged [Inspect S] [Inspect C] (m : Dtm S C) (limit : Nat) (r : Run S C) :
    ∃ moves rest, m.Logged limit r moves rest := by
  obtain ⟨n, h⟩ := m.exists_moved limit r
  have hlength : (m.advanceNotes limit r).length = n := by
    rw [h.notes, List.length_map, List.length_range]
  refine ⟨m.advanceNotes limit r, _, rfl, ?_, ?_, ?_, ?_, ?_⟩
  · rw [hlength]
    exact h.final
  · rw [hlength]
    exact h.steps
  · intro i e he
    rw [h.notes, List.getElem?_map] at he
    obtain ⟨j, hj, rfl⟩ := Option.map_eq_some_iff.1 he
    obtain ⟨hi, rfl⟩ := List.getElem?_eq_some_iff.1 hj
    rw [List.length_range] at hi
    rw [List.getElem_range]
    exact ⟨rfl, _, h.next i hi, rfl⟩
  · intro e he
    rw [h.notes, List.getLast?_map] at he
    obtain ⟨j, hj, rfl⟩ := Option.map_eq_some_iff.1 he
    rw [List.getLast?_range] at hj
    split at hj
    · cases hj
    · next hn =>
      obtain ⟨k, rfl⟩ := Nat.exists_eq_succ_of_ne_zero hn
      cases hj
      refine ⟨r.steps + k, ?_⟩
      rw [runFor_snd, h.final]
      rfl
  · by_cases hhalted : m.halted (m.advance limit r).config = true
    · rw [if_pos hhalted, runFor_eq_ok hhalted]
      exact .inl ⟨rfl, _, rfl⟩
    · rw [if_neg hhalted, runFor_eq_error hhalted]
      exact .inr ⟨_, rfl, rfl, rfl, rfl⟩

end TableMachines.Dtm
