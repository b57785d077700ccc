import Mathlib.Algebra.Group.Nat.Defs
import Mathlib.Data.List.DropRight
import TableMachines.Catalog.Tables
import TableMachines.Proofs.Turing.Scans

namespace TableMachines.Catalog

open Dtm Tape

variable {w u : List Char} {t : Nat}

def trailingOnes (w : List Char) : Nat :=
  (w.rtakeWhile (· = '1')).length

/-- The word after the carry: its part in front of the trailing ones and of the zero before them, a
one, and zeros for the trailing ones. -/
def carried (w : List Char) : List Char :=
  (w.rdropWhile (· = '1')).dropLast ++ '1' :: List.replicate (trailingOnes w) '0'

theorem rtakeWhile_eq_replicate (w : List Char) :
    w.rtakeWhile (· = '1') = List.replicate (trailingOnes w) '1' := by
  apply List.eq_replicate_length.2
  intro a ha
  simpa using List.mem_rtakeWhile_imp ha

theorem binary_cases (hw : ∀ a ∈ w, a = '0' ∨ a = '1') :
    (∀ a ∈ w, a = '1') ∧ w.rdropWhile (· = '1') = [] ∨
      (∃ a ∈ w, a ≠ '1') ∧ ∃ u, w.rdropWhile (· = '1') = u ++ ['0'] := by
  by_cases hnil : w.rdropWhile (· = '1') = []
  · have hall := List.rdropWhile_eq_nil_iff.1 hnil
    exact .inl ⟨by simpa using hall, hnil⟩
  · right
    have hlast := List.rdropWhile_last_not (fun a => decide (a = '1')) w hnil
    have hmem : (w.rdropWhile (· = '1')).getLast hnil ∈ w :=
      (List.rdropWhile_prefix _ _).subset (List.getLast_mem hnil)
    have hne : (w.rdropWhile (· = '1')).getLast hnil ≠ '1' := by simpa using hlast
    have hzero := (hw _ hmem).resolve_right hne
    refine ⟨⟨_, hmem, hne⟩, (w.rdropWhile (· = '1')).dropLast, ?_⟩
    rw [← hzero, List.dropLast_append_getLast hnil]

theorem ofDigitChars_replicate_one (n i : Nat) :
    Nat.ofDigitChars 2 (List.replicate n '1') i + 1 = 2 ^ n * (i + 1) := by
  induction n generalizing i with
  | zero => simp
  | succ n ih =>
    have hone : '1'.toNat - '0'.toNat = 1 := rfl
    rw [List.replicate_succ, Nat.ofDigitChars_cons, ih, hone, Nat.pow_succ, Nat.mul_assoc]
    congr 1

theorem eq_append_replicate (w : List Char) : w = w.rdropWhile (· = '1') ++
    List.replicate (trailingOnes w) '1' := by
  rw [← rtakeWhile_eq_replicate, List.rdropWhile_append_rtakeWhile]

theorem value_carried (hw : ∀ a ∈ w, a = '0' ∨ a = '1') :
    Nat.ofDigitChars 2 (carried w) 0 = Nat.ofDigitChars 2 w 0 + 1 := by
  have hzero : '0'.toNat - '0'.toNat = 0 := rfl
  have hone : '1'.toNat - '0'.toNat = 1 := rfl
  have hvalue : Nat.ofDigitChars 2 w 0 + 1 = 2 ^ trailingOnes w *
      (Nat.ofDigitChars 2 (w.rdropWhile (· = '1')) 0 + 1) := by
    conv_lhs => rw [eq_append_replicate w]
    rw [Nat.ofDigitChars_append, ofDigitChars_replicate_one]
  rw [hvalue, carried, Nat.ofDigitChars_append, Nat.ofDigitChars_cons,
    Nat.ofDigitChars_replicate_zero]
  congr 1
  rcases binary_cases hw with ⟨_, hnil⟩ | ⟨_, u, hu⟩
  · rw [hnil]
    rfl
  · rw [hu, List.dropLast_concat, Nat.ofDigitChars_append, Nat.ofDigitChars_cons,
      Nat.ofDigitChars_nil, hzero, hone]

theorem length_carried (hw : ∀ a ∈ w, a = '0' ∨ a = '1') :
    (carried w).length = w.length + if w.all (· = '1') then 1 else 0 := by
  have hlength := congrArg List.length (eq_append_replicate w)
  simp only [List.length_append, List.length_replicate] at hlength
  simp only [carried, List.length_append, List.length_cons, List.length_replicate]
  rcases binary_cases hw with ⟨hall, hnil⟩ | ⟨⟨a, ha, hne⟩, u, hu⟩
  · rw [if_pos (by simpa using hall)]
    rw [hnil] at hlength ⊢
    simp only [List.dropLast_nil, List.length_nil] at hlength ⊢
    omega
  · rw [if_neg (by simpa using ⟨a, ha, hne⟩)]
    rw [hu] at hlength ⊢
    simp only [List.dropLast_concat, List.length_append, List.length_singleton] at hlength ⊢
    omega

theorem mem_carried (hw : ∀ a ∈ w, a = '0' ∨ a = '1') :
    ∀ a ∈ carried w, a = '0' ∨ a = '1' := by
  intro a ha
  rcases List.mem_append.1 ha with ha | ha
  · exact hw a ((List.rdropWhile_prefix _ _).subset (List.dropLast_subset _ ha))
  · rcases List.mem_cons.1 ha with rfl | ha
    · exact .inr rfl
    · exact .inl (List.eq_of_mem_replicate ha)

theorem reaches_carried (hw : ∀ a ∈ w, a = '0' ∨ a = '1') :
    binaryIncrement.Reaches (trailingOnes w + 1) ⟨1, .ofInput w blankSymbol .last⟩
      ⟨2, atRight blankSymbol ('1' :: (w.rdropWhile (· = '1')).dropLast.reverse)
        (List.replicate (trailingOnes w) '0')⟩ := by
  have hcarry : binaryIncrement.Acts 1 '1' 1 '0' .left := by decide
  have hscan := (Scan.replicate hcarry (trailingOnes w)).left
    (w.rdropWhile (· = '1')).reverse [] blankSymbol
  have hinput : w.reverse = List.replicate (trailingOnes w) '1' ++
      (w.rdropWhile (· = '1')).reverse := by
    conv_lhs => rw [eq_append_replicate w]
    rw [List.reverse_append, List.reverse_replicate]
  rw [List.length_replicate, ← hinput, List.reverse_replicate, List.append_nil,
    ← ofInput_last] at hscan
  apply hscan.trans
  -- in front of the ones stands the blank before the word or a zero, and either becomes a one
  rcases binary_cases hw with ⟨_, hnil⟩ | ⟨_, u, hu⟩
  · have hblank : binaryIncrement.Acts 1 blankSymbol 2 '1' .right := by decide
    rw [hnil]
    exact hblank.right [] _ blankSymbol
  · have hzero : binaryIncrement.Acts 1 '0' 2 '1' .right := by decide
    rw [hu, List.dropLast_concat, List.reverse_append]
    exact hzero.right u.reverse _ blankSymbol

theorem reaches_increment (hw : ∀ a ∈ w, a = '0' ∨ a = '1') :
    binaryIncrement.Reaches (2 * trailingOnes w + 2)
      ⟨1, .ofInput w blankSymbol .last⟩
      ⟨3, atLeft blankSymbol (carried w).reverse [blankSymbol]⟩ := by
  let t := trailingOnes w
  let left := '1' :: (w.rdropWhile (· = '1')).dropLast.reverse
  have hkeep : binaryIncrement.Acts 2 '0' 2 '0' .right := by decide
  have hscan := (Scan.replicate hkeep t).right left [] blankSymbol
  rw [List.length_replicate, List.append_nil] at hscan
  have hend : binaryIncrement.Acts 2 blankSymbol 3 blankSymbol .left := by decide
  have hturn := hend.left ((List.replicate t '0').reverse ++ left) [] blankSymbol
  have hall := ((reaches_carried hw).trans hscan).trans hturn
  have hcells : (carried w).reverse = (List.replicate t '0').reverse ++ left := by
    simp [carried, left, t]
  have hsteps : 2 * t + 2 = t + 1 + t + 1 := by omega
  rw [hcells, hsteps]
  exact hall

theorem binaryIncrement_adds_one (w : List Char) (hw : ∀ a ∈ w, a = '0' ∨ a = '1') :
    binaryIncrement.HaltsAfter (binaryIncrement.startRun (.ofInput w blankSymbol .last))
      (2 * trailingOnes w + 2) ∧
    (∃ r, r.steps = 2 * trailingOnes w + 2 ∧
      (∀ bound, binaryIncrement.run? bound (binaryIncrement.startRun (.ofInput w blankSymbol .last)) =
        if 2 * trailingOnes w + 2 ≤ bound then some (.accepted, r) else none) ∧
      (∀ a ∈ r.config.tape.contents, a = '0' ∨ a = '1') ∧
      Nat.ofDigitChars 2 r.config.tape.contents 0 = Nat.ofDigitChars 2 w 0 + 1 ∧
      r.config.tape.contents.length = w.length + (if w.all (· = '1') then 1 else 0)) ∧
    ∃ entry, lookup "binary-increment" = .ok entry ∧ ∀ bound, entry.machine.accepts? bound w =
      some (if 2 * trailingOnes w + 2 ≤ maxSteps then .ok true
        else .error (.stepLimitExceeded maxSteps)) := by
  have hreach := reaches_increment hw
  have hcontents : (atLeft blankSymbol (carried w).reverse [blankSymbol]).contents = carried w := by
    have hne : (carried w).reverse ≠ [] := by simp [carried]
    have hblank : blankSymbol ∉ (carried w).reverse := by
      intro h
      have hdigit := mem_carried hw _ (List.mem_reverse.1 h)
      revert hdigit
      decide
    exact (contents_atLeft hne hblank 1).trans (List.reverse_reverse _)
  refine ⟨hreach.haltsAfter rfl 0, ⟨_, rfl, hreach.run?_startRun rfl, ?_⟩, _, rfl, fun bound => ?_⟩
  · rw [hcontents]
    exact ⟨mem_carried hw, value_carried hw, length_carried hw⟩
  · exact congrArg some (hreach.accepts rfl maxSteps)

theorem binaryIncrement_adds_one_eleven :
    (∀ a ∈ ['1', '0', '1', '1'], a = '0' ∨ a = '1') ∧
      binaryIncrement.HaltsAfter
        (binaryIncrement.startRun (.ofInput ['1', '0', '1', '1'] blankSymbol .last)) 6 ∧
      ∃ r, binaryIncrement.run? 6
        (binaryIncrement.startRun (.ofInput ['1', '0', '1', '1'] blankSymbol .last)) =
          some (.accepted, r) ∧ Nat.ofDigitChars 2 r.config.tape.contents 0 = 12 := by
  have hw : ∀ a ∈ ['1', '0', '1', '1'], a = '0' ∨ a = '1' := by simp
  have hones : 2 * trailingOnes ['1', '0', '1', '1'] + 2 = 6 := by decide
  have hword : Nat.ofDigitChars 2 ['1', '0', '1', '1'] 0 = 11 := by decide
  obtain ⟨hhalts, ⟨r, _, hrun, _, hvalue, _⟩, _⟩ := binaryIncrement_adds_one ['1', '0', '1', '1'] hw
  rw [hones] at hhalts hrun
  rw [hword] at hvalue
  exact ⟨hw, hhalts, r, hrun 6, hvalue⟩

end TableMachines.Catalog
