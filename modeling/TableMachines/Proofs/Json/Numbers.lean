import Mathlib.Tactic.ByContra
import TableMachines.Json.Basic
import TableMachines.Json.Reader

namespace TableMachines.Json

open Text

def stops : List Char :=
  [',', ']', '\x7d']

/-- The text ends, or goes on with what may stand behind an item or a member. -/
def Stops (cs : List Char) : Prop :=
  ∀ c ∈ cs.head?, c ∈ stops

variable {n : Nat} {rest : List Char}

theorem isDigit_of_mem_natDigits {c : Char} (hc : c ∈ natDigits n) : c.isDigit = true :=
  Nat.isDigit_of_mem_toDigits (by decide) (by decide) hc

theorem exists_natDigits (n : Nat) : ∃ d ds, natDigits n = d :: ds ∧ d.isDigit = true := by
  cases hdigits : natDigits n with
  | nil => exact absurd hdigits Nat.toDigits_ne_nil
  | cons d ds =>
    have hmem : d ∈ natDigits n := hdigits ▸ List.mem_cons_self
    exact ⟨d, ds, rfl, isDigit_of_mem_natDigits hmem⟩

theorem digitsValue_natDigits (n : Nat) : digitsValue (natDigits n) = n := by
  have hvalue : digitsValue (natDigits n) = Nat.ofDigitChars 10 (Nat.toDigits 10 n) 0 :=
    Nat.ofDigitChars_eq_foldl.symm
  rw [hvalue, Nat.ofDigitChars_ten_toDigits]

theorem head?_natDigits (hn : n ≠ 0) : (natDigits n).head? ≠ some '0' := by
  induction n using Nat.strongRecOn with
  | _ n ih =>
    by_cases hlt : n < 10
    · have hall : ∀ n < 10, n ≠ 0 → [n.digitChar].head? ≠ some '0' := by decide
      rw [natDigits, Nat.toDigits_of_lt_base hlt]
      exact hall n hlt hn
    · have hhead := ih (n / 10) (by omega) (by omega)
      rw [natDigits, Nat.toDigits_of_base_le (by decide) (by omega)]
      obtain ⟨d, ds, hdigits, _⟩ := exists_natDigits (n / 10)
      rw [hdigits] at hhead
      rw [← natDigits, hdigits]
      exact hhead

theorem natDigits_unpadded (n : Nat) :
    ¬ ((natDigits n).head? = some '0' ∧ (natDigits n).length ≠ 1) := by
  rintro ⟨hhead, hlength⟩
  by_cases hn : n = 0
  · subst hn
    exact hlength (by decide)
  · exact head?_natDigits hn hhead

theorem digits?_append {ds : List Char} (hne : ds ≠ []) (hds : ∀ c ∈ ds, c.isDigit = true)
    (hrest : ∀ c ∈ rest.head?, c.isDigit = false) : digits? (ds ++ rest) = some (ds, rest) := by
  have hnone : rest.takeWhile Char.isDigit = [] ∧ rest.dropWhile Char.isDigit = rest := by
    cases rest with
    | nil => exact ⟨rfl, rfl⟩
    | cons c rest => simp [hrest c rfl]
  rw [digits?, List.takeWhile_append_of_pos hds, List.dropWhile_append_of_pos hds, hnone.1, hnone.2,
    List.append_nil]
  split
  · exact absurd rfl hne
  · rfl

theorem digits?_natDigits (h : Stops rest) :
    digits? (natDigits n ++ rest) = some (natDigits n, rest) := by
  have hstops : ∀ c ∈ stops, c.isDigit = false := by simp [stops]
  apply digits?_append Nat.toDigits_ne_nil
  · intro c hc
    exact isDigit_of_mem_natDigits hc
  · intro c hc
    exact hstops c (h c hc)

theorem fraction?_of_stops (h : Stops rest) : fraction? rest = some (false, rest) := by
  unfold fraction?
  split
  · exact absurd (h '.' rfl) (by decide)
  · rfl

theorem exponent?_of_stops (h : Stops rest) : exponent? rest = some (false, rest) := by
  have hstops : ∀ c ∈ stops, ¬ (c = 'e' ∨ c = 'E') := by simp [stops]
  cases rest with
  | nil => rfl
  | cons c cs => rw [exponent?, if_neg (hstops c (h c rfl))]

theorem number?_natDigits (h : Stops rest) :
    number? false (natDigits n ++ rest) = some (.int n, rest) := by
  simp [number?, digits?_natDigits h, natDigits_unpadded, fraction?_of_stops h,
    exponent?_of_stops h, digitsValue_natDigits]

theorem number?_neg_natDigits (hn : n ≠ 0) (h : Stops rest) :
    number? true (natDigits n ++ rest) = some (.int (-n), rest) := by
  simp [number?, digits?_natDigits h, natDigits_unpadded, fraction?_of_stops h,
    exponent?_of_stops h, digitsValue_natDigits, hn]

theorem number?_neg_zero (h : Stops rest) : number? true ('0' :: rest) = some (.real, rest) := by
  have hdigits : digits? ('0' :: rest) = some (['0'], rest) := digits?_natDigits (n := 0) h
  simp [number?, hdigits, fraction?_of_stops h, exponent?_of_stops h, digitsValue]

end TableMachines.Json
