import TableMachines.Proofs.Json.Numbers
import TableMachines.Proofs.Json.Strings

namespace TableMachines.Json

open Text

variable {n : Nat} {c d : Char} {cs rest : List Char} {j : Json} {k : Option String}

theorem ne_of_isDigit (hc : c.isDigit = true) (hd : d.isDigit = false) : c ≠ d := by
  rintro rfl
  rw [hc] at hd
  cases hd

theorem isBlank_of_isDigit (hc : c.isDigit = true) : isBlank c = false := by
  have h1 := ne_of_isDigit hc (d := ' ') (by decide)
  have h2 := ne_of_isDigit hc (d := '\t') (by decide)
  have h3 := ne_of_isDigit hc (d := '\n') (by decide)
  have h4 := ne_of_isDigit hc (d := '\r') (by decide)
  simp [isBlank, h1, h2, h3, h4]

theorem skipBlanks_cons (hc : isBlank c = false) (cs : List Char) :
    skipBlanks (c :: cs) = c :: cs := by
  simp [skipBlanks, hc]

theorem value?_digit (hc : c.isDigit = true) (n : Nat) (cs : List Char) :
    value? (n + 1) (c :: cs) = number? false (c :: cs) := by
  rw [value?, skipBlanks_cons (isBlank_of_isDigit hc)]
  split
  case h_8 => rfl
  all_goals next h => exact absurd (List.cons.inj h).1 (ne_of_isDigit hc (by decide))

theorem value?_intDigits (i : Int) (n : Nat) (h : Stops rest) :
    value? (n + 1) (intDigits i ++ rest) = some (.int i, rest) := by
  by_cases hi : i < 0
  · have hsign : intDigits i ++ rest = '-' :: (natDigits i.natAbs ++ rest) := by
      rw [intDigits, if_pos hi, List.cons_append]
    rw [hsign, value?, skipBlanks_cons (by decide)]
    have habs : (-(i.natAbs : Int)) = i := by omega
    have hnumber := number?_neg_natDigits (n := i.natAbs) (by omega) h
    rwa [habs] at hnumber
  · have hnumber := number?_natDigits (n := i.natAbs) h
    have habs : (i.natAbs : Int) = i := by omega
    rw [habs] at hnumber
    obtain ⟨d, ds, hdigits, hd⟩ := exists_natDigits i.natAbs
    rw [hdigits] at hnumber
    rw [intDigits, if_neg hi, hdigits, List.cons_append, value?_digit hd]
    exact hnumber

theorem value?_quoted (s : Option String) (n : Nat) (rest : List Char) :
    value? (n + 1) (quoted s ++ rest) = some (.str s, rest) := by
  rw [quoted_eq, List.cons_append, value?, skipBlanks_cons (by decide)]
  simp [literal?_quoted]

theorem value?_bracket {js : List Json} (hc : isBlank c = false) (hclose : c ≠ ']')
    (h : items? n (c :: cs) = some (js, rest)) :
    value? (n + 1) ('[' :: c :: cs) = some (.arr js, rest) := by
  rw [value?, skipBlanks_cons (by decide)]
  simp only [skipBlanks_cons hc]
  split
  · next hnil => exact absurd (List.cons.inj hnil).1 hclose
  · rw [h]
    rfl

theorem value?_brace {ms : List (Option String × Json)}
    (h : members? n (quoted k ++ cs) = some (ms, rest)) :
    value? (n + 1) ('\x7b' :: (quoted k ++ cs)) = some (.obj ms, rest) := by
  have hquote : isBlank '"' = false := by decide
  rw [quoted_eq, List.cons_append] at h ⊢
  rw [value?, skipBlanks_cons (by decide)]
  simp only [skipBlanks_cons hquote]
  split
  · next hnil => exact absurd (List.cons.inj hnil).1 (by decide)
  · rw [h]
    rfl

theorem items?_last (h : value? n cs = some (j, ']' :: rest)) :
    items? (n + 1) cs = some ([j], rest) := by
  have hclose : isBlank ']' = false := by decide
  rw [items?, h]
  simp [skipBlanks_cons hclose]

theorem items?_comma {js : List Json} {r : List Char} (h : value? n cs = some (j, ',' :: r))
    (hr : items? n r = some (js, rest)) : items? (n + 1) cs = some (j :: js, rest) := by
  have hcomma : isBlank ',' = false := by decide
  rw [items?, h]
  simp [skipBlanks_cons hcomma, hr]

theorem members?_last (h : value? n cs = some (j, '\x7d' :: rest)) :
    members? (n + 1) (quoted k ++ ':' :: cs) = some ([(k, j)], rest) := by
  have hcolon : isBlank ':' = false := by decide
  have hclose : isBlank '\x7d' = false := by decide
  rw [quoted_eq, List.cons_append, members?, skipBlanks_cons (by decide)]
  simp [literal?_quoted, skipBlanks_cons hcolon, h, skipBlanks_cons hclose]

theorem members?_comma {ms : List (Option String × Json)} {r : List Char}
    (h : value? n cs = some (j, ',' :: r)) (hr : members? n r = some (ms, rest)) :
    members? (n + 1) (quoted k ++ ':' :: cs) = some ((k, j) :: ms, rest) := by
  have hcolon : isBlank ':' = false := by decide
  have hcomma : isBlank ',' = false := by decide
  rw [quoted_eq, List.cons_append, members?, skipBlanks_cons (by decide)]
  simp [literal?_quoted, skipBlanks_cons hcolon, h, skipBlanks_cons hcomma, hr]

theorem stops_itemChars (js : List Json) (rest : List Char) : Stops (itemChars js ++ rest) := by
  intro c hc
  cases js with
  | nil =>
    rw [itemChars] at hc
    cases hc
    decide
  | cons j js =>
    rw [itemChars] at hc
    cases hc
    decide

theorem stops_memberChars (ms : List (Option String × Json)) (rest : List Char) :
    Stops (memberChars ms ++ rest) := by
  intro c hc
  cases ms with
  | nil =>
    rw [memberChars] at hc
    cases hc
    decide
  | cons m ms =>
    rw [memberChars] at hc
    cases hc
    decide

theorem exists_intDigits (i : Int) :
    ∃ c cs, intDigits i = c :: cs ∧ (c = '-' ∨ c.isDigit = true) := by
  unfold intDigits
  split
  · exact ⟨'-', _, rfl, .inl rfl⟩
  · obtain ⟨d, ds, hdigits, hd⟩ := exists_natDigits i.natAbs
    exact ⟨d, ds, hdigits, .inr hd⟩

theorem exists_chars (j : Json) : ∃ c cs, chars j = c :: cs ∧ isBlank c = false ∧ c ≠ ']' := by
  cases j with
  | null => exact ⟨'n', _, by rw [chars], by decide, by decide⟩
  | bool b =>
    cases b with
    | false => exact ⟨'f', _, by rw [chars], by decide, by decide⟩
    | true => exact ⟨'t', _, by rw [chars], by decide, by decide⟩
  | int i =>
    obtain ⟨c, cs, hchars, rfl | hdigit⟩ := exists_intDigits i
    · exact ⟨'-', cs, by rw [chars, hchars], by decide, by decide⟩
    · exact ⟨c, cs, by rw [chars, hchars], isBlank_of_isDigit hdigit,
        ne_of_isDigit hdigit (by decide)⟩
  | real => exact ⟨'-', _, by rw [chars], by decide, by decide⟩
  | str s => exact ⟨'"', _, by rw [chars]; exact quoted_eq s, by decide, by decide⟩
  | arr js =>
    cases js with
    | nil => exact ⟨'[', _, by rw [chars], by decide, by decide⟩
    | cons j js => exact ⟨'[', _, by rw [chars, List.cons_append], by decide, by decide⟩
  | obj ms =>
    cases ms with
    | nil => exact ⟨'\x7b', _, by rw [chars], by decide, by decide⟩
    | cons m ms => exact ⟨'\x7b', _, by rw [chars, List.cons_append, List.cons_append], by decide, by decide⟩

theorem chars_length_pos (j : Json) : 0 < (chars j).length := by
  obtain ⟨c, cs, hchars, _⟩ := exists_chars j
  rw [hchars]
  exact Nat.succ_pos _

theorem itemChars_length_pos (js : List Json) : 0 < (itemChars js).length := by
  cases js with
  | nil => simp [itemChars]
  | cons j js => simp [itemChars]

theorem memberChars_length_pos (ms : List (Option String × Json)) : 0 < (memberChars ms).length := by
  cases ms with
  | nil => simp [memberChars]
  | cons m ms => simp [memberChars]

theorem value?_real (n : Nat) (h : Stops rest) :
    value? (n + 1) ('-' :: '0' :: rest) = some (.real, rest) := by
  rw [value?, skipBlanks_cons (by decide)]
  exact number?_neg_zero h

theorem value?_null (n : Nat) (rest : List Char) :
    value? (n + 1) ('n' :: 'u' :: 'l' :: 'l' :: rest) = some (.null, rest) := by
  rw [value?, skipBlanks_cons (by decide)]
  rfl

theorem value?_true (n : Nat) (rest : List Char) :
    value? (n + 1) ('t' :: 'r' :: 'u' :: 'e' :: rest) = some (.bool true, rest) := by
  rw [value?, skipBlanks_cons (by decide)]
  rfl

theorem value?_false (n : Nat) (rest : List Char) :
    value? (n + 1) ('f' :: 'a' :: 'l' :: 's' :: 'e' :: rest) = some (.bool false, rest) := by
  rw [value?, skipBlanks_cons (by decide)]
  rfl

theorem value?_nil_items (n : Nat) (rest : List Char) :
    value? (n + 1) ('[' :: ']' :: rest) = some (.arr [], rest) := by
  have hclose : isBlank ']' = false := by decide
  rw [value?, skipBlanks_cons (by decide)]
  simp [skipBlanks_cons hclose]

theorem value?_nil_members (n : Nat) (rest : List Char) :
    value? (n + 1) ('\x7b' :: '\x7d' :: rest) = some (.obj [], rest) := by
  have hclose : isBlank '\x7d' = false := by decide
  rw [value?, skipBlanks_cons (by decide)]
  simp [skipBlanks_cons hclose]

-- The bound falls by one with each item and member, and each takes up a character at least.
mutual

theorem value?_chars : ∀ (j : Json) (n : Nat) (rest : List Char), (chars j).length ≤ n + 1 →
    Stops rest → value? (n + 1) (chars j ++ rest) = some (j, rest)
  | .null, n, rest, _, _ => by
    rw [chars]
    exact value?_null n rest
  | .bool true, n, rest, _, _ => by
    rw [chars]
    exact value?_true n rest
  | .bool false, n, rest, _, _ => by
    rw [chars]
    exact value?_false n rest
  | .int i, n, rest, _, h => by
    rw [chars]
    exact value?_intDigits i n h
  | .real, n, rest, _, h => by
    rw [chars]
    exact value?_real n h
  | .str s, n, rest, _, _ => by
    rw [chars]
    exact value?_quoted s n rest
  | .arr [], n, rest, _, _ => by
    rw [chars]
    exact value?_nil_items n rest
  | .arr (j :: js), n, rest, hn, _ => by
    rw [chars] at hn ⊢
    obtain ⟨c, cs, hchars, hblank, hclose⟩ := exists_chars j
    have hlength : (itemChars (j :: js)).length ≤ n + 1 := by
      rw [itemChars]
      simpa using hn
    have hitems := items?_itemChars (j :: js) n rest (List.cons_ne_nil j js) hlength
    rw [itemChars, List.cons_append, List.tail_cons, hchars] at hitems
    rw [hchars]
    exact value?_bracket hblank hclose hitems
  | .obj [], n, rest, _, _ => by
    rw [chars]
    exact value?_nil_members n rest
  | .obj ((k, j) :: ms), n, rest, hn, _ => by
    rw [chars] at hn ⊢
    have hlength : (memberChars ((k, j) :: ms)).length ≤ n + 1 := by
      rw [memberChars]
      simpa using hn
    have hmembers := members?_memberChars ((k, j) :: ms) n rest (List.cons_ne_nil _ ms) hlength
    rw [memberChars] at hmembers
    simp only [List.cons_append, List.tail_cons, List.append_assoc] at hmembers ⊢
    exact value?_brace hmembers

theorem items?_itemChars : ∀ (js : List Json) (n : Nat) (rest : List Char), js ≠ [] →
    (itemChars js).length ≤ n + 1 → items? n ((itemChars js).tail ++ rest) = some (js, rest)
  | [], _, _, hne, _ => absurd rfl hne
  | j :: js, n, rest, _, hn => by
    have hj := chars_length_pos j
    have hjs := itemChars_length_pos js
    rw [itemChars, List.cons_append, List.length_cons, List.length_append] at hn
    obtain ⟨m, rfl⟩ : ∃ m, n = m + 2 := ⟨n - 2, by omega⟩
    have hvalue := value?_chars j m (itemChars js ++ rest) (by omega) (stops_itemChars js rest)
    rw [itemChars, List.cons_append, List.tail_cons, List.append_assoc]
    cases js with
    | nil =>
      rw [itemChars] at hvalue ⊢
      exact items?_last hvalue
    | cons j' js =>
      have hitems := items?_itemChars (j' :: js) (m + 1) rest (List.cons_ne_nil j' js) (by omega)
      rw [itemChars] at hvalue hitems ⊢
      exact items?_comma hvalue hitems

theorem members?_memberChars : ∀ (ms : List (Option String × Json)) (n : Nat) (rest : List Char),
    ms ≠ [] → (memberChars ms).length ≤ n + 1 →
      members? n ((memberChars ms).tail ++ rest) = some (ms, rest)
  | [], _, _, hne, _ => absurd rfl hne
  | (k, j) :: ms, n, rest, _, hn => by
    have hj := chars_length_pos j
    have hms := memberChars_length_pos ms
    rw [memberChars] at hn ⊢
    simp only [List.cons_append, List.tail_cons, List.append_assoc, List.length_cons,
      List.length_append] at hn ⊢
    obtain ⟨m, rfl⟩ : ∃ m, n = m + 2 := ⟨n - 2, by omega⟩
    have hvalue := value?_chars j m (memberChars ms ++ rest) (by omega) (stops_memberChars ms rest)
    cases ms with
    | nil =>
      rw [memberChars] at hvalue ⊢
      exact members?_last hvalue
    | cons m' ms =>
      have hmembers := members?_memberChars (m' :: ms) (m + 1) rest (List.cons_ne_nil m' ms)
        (by omega)
      rw [memberChars] at hvalue hmembers ⊢
      simp only [List.cons_append, List.tail_cons] at hvalue hmembers ⊢
      exact members?_comma hvalue hmembers

end

theorem read?_compact (j : Json) : read? j.compact = some j := by
  have hend : Stops [] := fun c hc => by cases hc
  have hvalue := value?_chars j (chars j).length [] (Nat.le_succ _) hend
  rw [List.append_nil] at hvalue
  rw [read?, compact, String.toList_ofList, ofChars?, hvalue]
  rfl

end TableMachines.Json
