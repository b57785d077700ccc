import Mathlib.Tactic.SplitIfs
import TableMachines.Json.Basic
import TableMachines.Json.Reader

namespace TableMachines.Json

variable {c : Char}

theorem hexValue?_hexDigit {n : Nat} (hn : n < 16) : hexValue? (hexDigit n) = some n := by
  have hall : ∀ n < 16, hexValue? (hexDigit n) = some n := by decide
  exact hall n hn

theorem unit?_control (hc : c.toNat < 32) :
    unit? '0' '0' (hexDigit (c.toNat / 16)) (hexDigit c.toNat) = some c.toNat := by
  have hlow : hexDigit c.toNat = hexDigit (c.toNat % 16) := by simp [hexDigit]
  have hvalue : (0 * 16 + c.toNat / 16) * 16 + c.toNat % 16 = c.toNat := by omega
  have hzero : hexValue? '0' = some 0 := by decide
  rw [unit?, hlow, hexValue?_hexDigit (by omega), hexValue?_hexDigit (by omega), hzero]
  exact congrArg some hvalue

theorem ofUnit_control (hc : c.toNat < 32) : Piece.ofUnit c.toNat = .char c := by
  rw [Piece.ofUnit, if_neg (by omega), if_neg (by omega), Char.ofNat_toNat]

theorem bind_pieces (p : Piece) (found : Option (List Piece × List Char)) :
    (found.bind fun (ps, rest) => some (p :: ps, rest)) =
      found.map fun (ps, rest) => (p :: ps, rest) := by
  cases found with
  | none => rfl
  | some found => rfl

theorem pieces?_control (hc : c.toNat < 32) (cs : List Char) :
    pieces? ('\\' :: 'u' :: '0' :: '0' :: hexDigit (c.toNat / 16) :: hexDigit c.toNat :: cs) =
      (pieces? cs).map fun (ps, rest) => (.char c :: ps, rest) := by
  rw [pieces?, unit?_control hc, ← ofUnit_control hc]
  exact bind_pieces (.ofUnit c.toNat) (pieces? cs)

theorem pieces?_letter {e : Char} (he : e ≠ 'u') (hc : unescape? e = some c) (cs : List Char) :
    pieces? ('\\' :: e :: cs) = (pieces? cs).map fun (ps, rest) => (.char c :: ps, rest) := by
  rw [pieces?, hc]
  · exact bind_pieces (.char c) (pieces? cs)
  · intro _ _ _ _ _ hu _
    exact he hu

theorem pieces?_plain (hquote : c ≠ '"') (hslash : c ≠ '\\') (hc : ¬ c.toNat < 32)
    (cs : List Char) :
    pieces? (c :: cs) = (pieces? cs).map fun (ps, rest) => (.char c :: ps, rest) := by
  rw [pieces?, if_neg (by simp [hc, hslash])]
  · exact bind_pieces (.char c) (pieces? cs)
  · exact hquote
  · simp [hslash]
  · simp [hslash]

theorem pieces?_escape (c : Char) (cs : List Char) :
    pieces? (escape c ++ cs) = (pieces? cs).map fun (ps, rest) => (.char c :: ps, rest) := by
  unfold escape
  split_ifs with hself hb hf hn hr ht hcontrol
  · rcases hself with rfl | rfl
    · exact pieces?_letter (by decide) (by decide) cs
    · exact pieces?_letter (by decide) (by decide) cs
  · exact pieces?_letter (by decide) (by rw [hb]; decide) cs
  · exact pieces?_letter (by decide) (by rw [hf]; decide) cs
  · exact pieces?_letter (by decide) (by rw [hn]; decide) cs
  · exact pieces?_letter (by decide) (by rw [hr]; decide) cs
  · exact pieces?_letter (by decide) (by rw [ht]; decide) cs
  · exact pieces?_control hcontrol cs
  · obtain ⟨hquote, hslash⟩ := not_or.1 hself
    exact pieces?_plain hquote hslash hcontrol cs

theorem pieces?_escaped (s rest : List Char) :
    pieces? (s.flatMap escape ++ '"' :: rest) = some (s.map .char, rest) := by
  induction s with
  | nil => rw [List.flatMap_nil, List.nil_append, pieces?, List.map_nil]
  | cons c s ih =>
    rw [List.flatMap_cons, List.append_assoc, pieces?_escape, ih]
    rfl

theorem text?_chars (s : List Char) : Piece.text? (s.map .char) = some s := by
  induction s with
  | nil => rfl
  | cons c s ih =>
    rw [List.map_cons, Piece.text?, ih]
    rfl

theorem quoted_eq (s : Option String) : quoted s = '"' :: (quoted s).tail := by
  cases s with
  | none => rfl
  | some s => rfl

theorem literal?_quoted (s : Option String) (rest : List Char) :
    literal? ((quoted s).tail ++ rest) = some (s, rest) := by
  cases s with
  | none =>
    have hunit : unit? 'd' '8' '0' '0' = some 0xD800 := by decide
    have hhalf : pieces? ('\\' :: 'u' :: 'd' :: '8' :: '0' :: '0' :: '"' :: rest) =
        some ([.high 0xD800], rest) := by
      rw [pieces?, hunit, pieces?]
      rfl
    have htail : (quoted none).tail ++ rest =
        '\\' :: 'u' :: 'd' :: '8' :: '0' :: '0' :: '"' :: rest := rfl
    rw [htail, literal?, hhalf]
    rfl
  | some s =>
    have htail : (quoted (some s)).tail ++ rest = s.toList.flatMap escape ++ '"' :: rest := by
      simp [quoted]
    rw [htail, literal?, pieces?_escaped]
    simp [text?_chars]

end TableMachines.Json
