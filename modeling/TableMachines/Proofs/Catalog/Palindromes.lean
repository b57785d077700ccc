import TableMachines.Proofs.Catalog.Balance
import TableMachines.Proofs.Pushdown.Descent

namespace TableMachines.Catalog

open Dpda PushdownConfig PushdownRule SortedSet Table

abbrev Letter : Type := {c : Char // c = 'a' ∨ c = 'b'}

def spell (l : List Letter) : List Char :=
  l.map Subtype.val

inductive Half where
  | front (l : List Letter)
  | back (l : List Letter)

def mirrorStack (l : List Letter) : List Char :=
  spell l ++ ['$']

def Half.pair : Half → UInt32 × List Char
  | .front l => (1, mirrorStack l)
  | .back l => (2, mirrorStack l)

/-- The words that lead to the end of the letters when `mid` stands in the middle. -/
def Half.Completes (mid : List Char) : Half → List Char → Prop
  | .front l, w => ∃ u, w = spell u ++ mid ++ spell (u.reverse ++ l)
  | .back l, w => w = spell l

variable {mid w rest : List Char} {b c : Char} {x : Letter} {l : List Letter} {half : Half}
  {a : Option Char} {d : UInt32 × List Char}

theorem exists_letters_iff {P : List Char → Prop} :
    (∃ l, P (spell l)) ↔ ∃ u, (∀ c ∈ u, c = 'a' ∨ c = 'b') ∧ P u := by
  constructor
  · rintro ⟨l, hl⟩
    refine ⟨spell l, ?_, hl⟩
    intro c hc
    obtain ⟨x, _, rfl⟩ := List.mem_map.1 hc
    exact x.2
  · rintro ⟨u, hu, hP⟩
    lift u to List Letter using hu
    exact ⟨u, hP⟩

theorem exists_top (l : List Letter) :
    ∃ b rest, mirrorStack l = b :: rest ∧ (b = '$' ∨ b = 'a' ∨ b = 'b') := by
  cases l with
  | nil => exact ⟨'$', [], rfl, .inl rfl⟩
  | cons x l => exact ⟨x.1, mirrorStack l, rfl, .inr x.2⟩

theorem completes_front_iff : (Half.front l).Completes mid w ↔
    w = mid ++ spell l ∨ ∃ x v, w = x.1 :: v ∧ (Half.front (x :: l)).Completes mid v := by
  constructor
  · rintro ⟨_ | ⟨x, u⟩, rfl⟩
    · exact .inl rfl
    · refine .inr ⟨x, _, rfl, u, ?_⟩
      simp [spell]
  · rintro (rfl | ⟨x, _, rfl, u, rfl⟩)
    · exact ⟨[], rfl⟩
    · refine ⟨x :: u, ?_⟩
      simp [spell]

theorem completes_start_iff : (Half.front []).Completes mid w ↔
    ∃ u, (∀ c ∈ u, c = 'a' ∨ c = 'b') ∧ w = u ++ mid ++ u.reverse := by
  rw [← exists_letters_iff (P := fun u => w = u ++ mid ++ u.reverse)]
  simp [Half.Completes, spell]

section Marked

def mirrorStep : Half → Char → Option Half
  | .front l, c =>
    if h : c = 'a' ∨ c = 'b' then some (.front (⟨c, h⟩ :: l))
    else if c = 'm' then some (.back l)
    else none
  | .back (x :: l), c => if c = x.1 then some (.back l) else none
  | .back [], _ => none

def mirrorSettled : Half → PushdownConfig UInt32 Char
  | .front l => ofPair (1, mirrorStack l)
  | .back [] => ofPair (3, ['$'])
  | .back (x :: l) => ofPair (2, mirrorStack (x :: l))

theorem mem_alphabet_marked :
    c ∈ markedPalindrome.rules.alphabet ↔ c = 'a' ∨ c = 'b' ∨ c = 'm' := by
  have halphabet : markedPalindrome.rules.alphabet = .ofList ['a', 'b', 'm'] := by decide
  simp [halphabet, mem_ofList]

theorem lookup?_letter (hb : b = '$' ∨ b = 'a' ∨ b = 'b') (x : Letter) :
    markedPalindrome.lookup? 1 b (some x.1) = some ⟨1, some x.1, 1, b, [x.1, b]⟩ := by
  rcases hb with rfl | rfl | rfl <;> rcases x with ⟨_, rfl | rfl⟩ <;> rfl

theorem lookup?_mark (hb : b = '$' ∨ b = 'a' ∨ b = 'b') :
    markedPalindrome.lookup? 1 b (some 'm') = some ⟨1, some 'm', 2, b, [b]⟩ := by
  rcases hb with rfl | rfl | rfl <;> rfl

theorem lookup?_front_free (hb : b = '$' ∨ b = 'a' ∨ b = 'b') :
    markedPalindrome.lookup? 1 b none = none := by
  rcases hb with rfl | rfl | rfl <;> rfl

theorem lookup?_back (x : Letter) (hc : c = 'a' ∨ c = 'b' ∨ c = 'm') :
    markedPalindrome.lookup? 2 x.1 (some c) = if c = x.1 then some ⟨2, some c, 2, x.1, []⟩ else none := by
  rcases x with ⟨_, rfl | rfl⟩ <;> rcases hc with rfl | rfl | rfl <;> rfl

theorem lookup?_back_free (x : Letter) : markedPalindrome.lookup? 2 x.1 none = none := by
  rcases x with ⟨_, rfl | rfl⟩ <;> rfl

theorem lookup?_done (hc : c = 'a' ∨ c = 'b' ∨ c = 'm') :
    markedPalindrome.lookup? 3 '$' (some c) = none := by
  rcases hc with rfl | rfl | rfl <;> rfl

theorem mirrorStep_foreign (hc : c ∉ markedPalindrome.rules.alphabet) (half : Half) :
    mirrorStep half c = none := by
  rw [mem_alphabet_marked, ← or_assoc, not_or] at hc
  rcases half with l | _ | ⟨x, l⟩
  · rw [mirrorStep, dif_neg hc.1, if_neg hc.2]
  · rfl
  · apply if_neg
    rintro rfl
    exact hc.1 x.2

theorem settles_mirror (half : Half) :
    markedPalindrome.settled? 1 (ofPair half.pair) = some (mirrorSettled half) := by
  rcases half with l | _ | ⟨x, l⟩
  · obtain ⟨b, rest, hstack, hb⟩ := exists_top l
    apply settle?_of_none
    rw [Half.pair, hstack, next?_ofPair, lookup?_front_free hb]
    rfl
  · rfl
  · have hnext := next?_ofPair markedPalindrome 2 x.1 (mirrorStack l) none
    rw [lookup?_back_free x] at hnext
    exact settle?_of_none hnext 1

theorem reads_mirror (half : Half) (c : Char) :
    next? markedPalindrome.rules (mirrorSettled half) (some c) =
      (mirrorStep half c).map fun half => ofPair half.pair := by
  by_cases hc : c ∈ markedPalindrome.rules.alphabet
  · rw [mem_alphabet_marked] at hc
    rcases half with l | _ | ⟨x, l⟩
    · obtain ⟨b, rest, hstack, hb⟩ := exists_top l
      rw [mirrorSettled, hstack, next?_ofPair]
      by_cases hletter : c = 'a' ∨ c = 'b'
      · have hpush : mirrorStack (⟨c, hletter⟩ :: l) = c :: b :: rest := congrArg (c :: ·) hstack
        rw [lookup?_letter hb ⟨c, hletter⟩, mirrorStep, dif_pos hletter]
        simp [Half.pair, hpush]
      · obtain rfl : c = 'm' := by simpa [hletter, ← or_assoc] using hc
        rw [lookup?_mark hb]
        simp [mirrorStep, Half.pair, hstack]
    · rw [mirrorSettled, next?_ofPair, lookup?_done hc]
      rfl
    · have hnext := next?_ofPair markedPalindrome 2 x.1 (mirrorStack l) (some c)
      rw [lookup?_back x hc] at hnext
      refine hnext.trans ?_
      rw [mirrorStep]
      split
      · rfl
      · rfl
  · rw [next?_of_not_mem_alphabet hc, mirrorStep_foreign hc]
    rfl

theorem keeps_mirror :
    markedPalindrome.Keeps 1 mirrorStep (fun half => ofPair half.pair) mirrorSettled :=
  ⟨settles_mirror, reads_mirror⟩

theorem foldlM_mirrorStep_iff :
    w.foldlM mirrorStep half = some (.back []) ↔ half.Completes ['m'] w := by
  induction w generalizing half with
  | nil =>
    rcases half with l | _ | ⟨x, l⟩
    · simp [Half.Completes]
    · simp [Half.Completes, spell]
    · simp [Half.Completes, spell]
  | cons c w ih =>
    rw [List.foldlM_cons, Option.bind_eq_bind]
    rcases half with l | _ | ⟨x, l⟩
    · rw [completes_front_iff]
      by_cases hletter : c = 'a' ∨ c = 'b'
      · rw [mirrorStep, dif_pos hletter, Option.bind_some, ih]
        have hmark : c ≠ 'm' := by rintro rfl; simp at hletter
        simp [hmark, Subtype.exists, hletter]
      · rw [mirrorStep, dif_neg hletter]
        by_cases hmark : c = 'm'
        · subst hmark
          simp [ih, Half.Completes]
        · have hforeign : ∀ x : Letter, c ≠ x.1 := by
            rintro x rfl
            exact hletter x.2
          simp [hmark, hforeign]
    · simp [mirrorStep, Half.Completes, spell]
    · by_cases hc : c = x.1
      · simp [mirrorStep, hc, ih, Half.Completes, spell]
      · simp [mirrorStep, hc, Half.Completes, spell]

def MarkedPalindrome (w : List Char) : Prop :=
  ∃ u, (∀ c ∈ u, c = 'a' ∨ c = 'b') ∧ w = u ++ ['m'] ++ u.reverse

theorem decides_markedPalindrome : Decides "marked-palindrome" 1 MarkedPalindrome := by
  apply decides_of_keeps rfl rfl keeps_mirror (x := .front []) (y := .back [])
  · rfl
  · rintro (l | _ | ⟨x, l⟩)
    · exact iff_of_false Bool.false_ne_true nofun
    · exact iff_of_true rfl rfl
    · exact iff_of_false Bool.false_ne_true nofun
  · intro w
    rw [foldlM_mirrorStep_iff, completes_start_iff, MarkedPalindrome]

theorem deterministic_pushdown_decide : Decides "balanced-parentheses" 1 Balanced ∧
    Decides "equal-as-and-bs" 1 EqualLetters ∧ Decides "marked-palindrome" 1 MarkedPalindrome :=
  ⟨decides_balanced, decides_equalLetters, decides_markedPalindrome⟩

end Marked

section Guessed

variable {t : UInt32} {push : List Char}

theorem rule_front_iff (hb : b = '$' ∨ b = 'a' ∨ b = 'b') :
    ⟨1, a, t, b, push⟩ ∈ evenPalindrome.rules ↔
      (∃ c, (c = 'a' ∨ c = 'b') ∧ a = some c ∧ t = 1 ∧ push = [c, b]) ∨
        (a = none ∧ t = 2 ∧ push = [b]) := by
  rcases hb with rfl | rfl | rfl <;>
    simp [evenPalindrome, pushdown, or_and_right, exists_or, or_assoc]

theorem rule_back_iff (x : Letter) : ⟨2, a, t, x.1, push⟩ ∈ evenPalindrome.rules ↔
    a = some x.1 ∧ t = 2 ∧ push = [] := by
  rcases x with ⟨_, rfl | rfl⟩ <;> simp [evenPalindrome, pushdown]

theorem rule_bottom_iff : ⟨2, a, t, '$', push⟩ ∈ evenPalindrome.rules ↔
    a = none ∧ t = 3 ∧ push = ['$'] := by
  simp [evenPalindrome, pushdown]

theorem rule_done : ⟨3, a, t, b, push⟩ ∉ evenPalindrome.rules := by
  simp [evenPalindrome, pushdown]

theorem move_front_iff : Move evenPalindrome.rules (Half.front l).pair a d ↔
    (∃ x : Letter, a = some x.1 ∧ d = (Half.front (x :: l)).pair) ∨
      (a = none ∧ d = (Half.back l).pair) := by
  obtain ⟨b, rest, hstack, hb⟩ := exists_top l
  have hpush (x : Letter) : mirrorStack (x :: l) = x.1 :: b :: rest := congrArg (x.1 :: ·) hstack
  simp only [Half.pair, hpush, hstack, move_cons_iff, rule_front_iff hb]
  constructor
  · rintro ⟨t, push, ⟨c, hc, rfl, rfl, rfl⟩ | ⟨rfl, rfl, rfl⟩, rfl⟩
    · exact .inl ⟨⟨c, hc⟩, rfl, rfl⟩
    · exact .inr ⟨rfl, rfl⟩
  · rintro (⟨x, rfl, rfl⟩ | ⟨rfl, rfl⟩)
    · exact ⟨1, [x.1, b], .inl ⟨x.1, x.2, rfl, rfl, rfl⟩, rfl⟩
    · exact ⟨2, [b], .inr ⟨rfl, rfl, rfl⟩, rfl⟩

theorem move_back_nil_iff : Move evenPalindrome.rules (Half.back []).pair a d ↔
    a = none ∧ d = (3, ['$']) := by
  change Move evenPalindrome.rules (2, '$' :: []) a d ↔ _
  simp [move_cons_iff, rule_bottom_iff]

theorem move_back_cons_iff : Move evenPalindrome.rules (Half.back (x :: l)).pair a d ↔
    a = some x.1 ∧ d = (Half.back l).pair := by
  change Move evenPalindrome.rules (2, x.1 :: mirrorStack l) a d ↔ _
  simp [move_cons_iff, rule_back_iff, Half.pair]

theorem not_move_done : ¬ Move evenPalindrome.rules (3, ['$']) a d := by
  simp [move_cons_iff, rule_done]

theorem moves_back (l : List Letter) :
    Moves evenPalindrome.rules (Half.back l).pair (spell l) (3, ['$']) := by
  induction l with
  | nil => exact .head (move_back_nil_iff.2 ⟨rfl, rfl⟩) (.refl _)
  | cons x l ih => exact .head (move_back_cons_iff.2 ⟨rfl, rfl⟩) ih

theorem moves_front (u l : List Letter) :
    Moves evenPalindrome.rules (Half.front l).pair (spell (u ++ (u.reverse ++ l))) (3, ['$']) := by
  induction u generalizing l with
  | nil => exact .head (move_front_iff.2 (.inr ⟨rfl, rfl⟩)) (moves_back l)
  | cons x u ih =>
    have hword : x :: u ++ ((x :: u).reverse ++ l) = x :: (u ++ (u.reverse ++ x :: l)) := by simp
    rw [hword]
    exact .head (move_front_iff.2 (.inl ⟨x, rfl, rfl⟩)) (ih (x :: l))

theorem completes_of_moves (h : Moves evenPalindrome.rules half.pair w (3, rest)) :
    half.Completes [] w := by
  generalize hc : half.pair = c at h
  generalize he : ((3 : UInt32), rest) = e at h
  induction h generalizing half with
  | refl =>
    have hstate := congrArg Prod.fst (hc.trans he.symm)
    rcases half with l | l
    · exact absurd hstate (by decide : (1 : UInt32) ≠ 3)
    · exact absurd hstate (by decide : (2 : UInt32) ≠ 3)
  | head hmove hrest ih =>
    subst hc
    rcases half with l | _ | ⟨x, l⟩
    · rw [completes_front_iff]
      rcases move_front_iff.1 hmove with ⟨x, rfl, rfl⟩ | ⟨rfl, rfl⟩
      · exact .inr ⟨x, _, rfl, ih rfl he⟩
      · exact .inl (ih rfl he)
    · -- from the bottom of the stack the machine stops, and no rule leads on from there
      obtain ⟨rfl, rfl⟩ := move_back_nil_iff.1 hmove
      cases hrest with
      | refl => rfl
      | head hmove => exact absurd hmove not_move_done
    · obtain ⟨rfl, rfl⟩ := move_back_cons_iff.1 hmove
      exact congrArg (x.1 :: ·) (ih rfl he)

/-- A machine in front of the middle has two free moves ahead. -/
def guessWeight (s : UInt32) (_ : Char) : Nat :=
  if s = 1 then 2 else if s = 2 then 1 else 0

theorem descends_guessWeight : Descends evenPalindrome.rules guessWeight := by
  unfold Descends
  decide

theorem guessWeight_le (s : UInt32) (b : Char) : guessWeight s b ≤ 2 := by
  unfold guessWeight
  split_ifs <;> omega

def EvenPalindrome (w : List Char) : Prop :=
  ∃ u, (∀ c ∈ u, c = 'a' ∨ c = 'b') ∧ w = u ++ u.reverse

theorem exists_moves_front_iff :
    (∃ rest, Moves evenPalindrome.rules (Half.front []).pair w (3, rest)) ↔ EvenPalindrome w := by
  have hlanguage : (Half.front []).Completes [] w ↔ EvenPalindrome w := by
    rw [completes_start_iff]
    simp only [List.append_nil, EvenPalindrome]
  rw [← hlanguage]
  constructor
  · rintro ⟨rest, h⟩
    exact completes_of_moves h
  · rintro ⟨u, rfl⟩
    have h := moves_front u []
    exact ⟨['$'], by simpa [spell] using h⟩

theorem evenPalindrome_decides : Decides "even-palindrome" 3 EvenPalindrome := by
  refine ⟨_, rfl, fun w => ?_⟩
  obtain ⟨b, hb, hiff⟩ := Npda.exists_accepts?_of_descends descends_guessWeight guessWeight_le w
  refine ⟨b, fun bound hbound => congrArg (Option.map Except.ok) (hb bound hbound), hiff.trans ?_⟩
  rw [Npda.exists_accept_spells_iff, ← exists_moves_front_iff]
  constructor
  · rintro ⟨s, hs, rest, h⟩
    obtain rfl : s = 3 := SortedSet.mem_singleton.1 hs
    exact ⟨rest, h⟩
  · rintro ⟨rest, h⟩
    exact ⟨3, SortedSet.mem_singleton.2 rfl, rest, h⟩

end Guessed

end TableMachines.Catalog
