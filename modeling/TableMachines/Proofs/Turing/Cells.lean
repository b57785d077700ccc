import TableMachines.Turing.Tape

namespace TableMachines

def Direction.offset : Direction → Int
  | .left => -1
  | .right => 1

namespace Tape

variable {C : Type}

/-- The head stands at zero, and cells beyond the stored ones are blank. -/
def cell (t : Tape C) : Int → C
  | .ofNat 0 => t.scanned
  | .ofNat (n + 1) => t.right.getD n t.blank
  | .negSucc n => t.left.getD n t.blank

def pad (t : Tape C) (i j : Nat) : Tape C :=
  { t with
    left := t.left ++ List.replicate i t.blank
    right := t.right ++ List.replicate j t.blank }

theorem cell_zero (t : Tape C) : t.cell 0 = t.scanned := rfl

theorem cell_write (a : C) (t : Tape C) (i : Int) :
    (t.write a).cell i = if i = 0 then a else t.cell i := by
  rcases i with (_ | n) | n
  · rfl
  · rfl
  · rfl

theorem cell_moveLeft_add_one (t : Tape C) (i : Int) : t.moveLeft.cell (i + 1) = t.cell i := by
  obtain ⟨left, a, right, blank⟩ := t
  cases left with
  | nil =>
    rcases i with (_ | n) | _ | n
    · rfl
    · rfl
    · rfl
    · rfl
  | cons b left =>
    rcases i with (_ | n) | _ | n
    · rfl
    · rfl
    · rfl
    · rfl

theorem cell_moveRight (t : Tape C) (i : Int) : t.moveRight.cell i = t.cell (i + 1) := by
  obtain ⟨left, a, right, blank⟩ := t
  cases right with
  | nil =>
    rcases i with (_ | n) | _ | n
    · rfl
    · rfl
    · rfl
    · rfl
  | cons b right =>
    rcases i with (_ | n) | _ | n
    · rfl
    · rfl
    · rfl
    · rfl

theorem cell_move (d : Direction) (t : Tape C) (i : Int) :
    (t.move d).cell i = t.cell (i + d.offset) := by
  cases d with
  | left =>
    have h := t.cell_moveLeft_add_one (i - 1)
    rwa [Int.sub_add_cancel] at h
  | right => exact t.cell_moveRight i

theorem getD_append_replicate (l : List C) (i n : Nat) (b : C) :
    (l ++ List.replicate i b).getD n b = l.getD n b := by
  induction l generalizing n with
  | nil =>
    simp only [List.nil_append, List.getD_eq_getElem?_getD, List.getElem?_replicate]
    split <;> rfl
  | cons a l ih =>
    cases n with
    | zero => rfl
    | succ n => exact ih n

theorem cell_pad (t : Tape C) (i j : Nat) : (t.pad i j).cell = t.cell := by
  funext k
  rcases k with (_ | n) | n
  · rfl
  · exact getD_append_replicate t.right j n t.blank
  · exact getD_append_replicate t.left i n t.blank

def atRight (blank : C) (left : List C) : List C → Tape C
  | [] => ⟨left, blank, [], blank⟩
  | a :: right => ⟨left, a, right, blank⟩

def atLeft (blank : C) (left right : List C) : Tape C :=
  match left with
  | [] => ⟨[], blank, right, blank⟩
  | a :: left => ⟨left, a, right, blank⟩

theorem moveRight_eq (t : Tape C) : t.moveRight = atRight t.blank (t.scanned :: t.left) t.right := by
  obtain ⟨left, a, right, blank⟩ := t
  cases right with
  | nil => rfl
  | cons b right => rfl

theorem moveLeft_eq (t : Tape C) : t.moveLeft = atLeft t.blank t.left (t.scanned :: t.right) := by
  obtain ⟨left, a, right, blank⟩ := t
  cases left with
  | nil => rfl
  | cons b left => rfl

theorem ofInput_first (w : List C) (blank : C) : ofInput w blank .first = atRight blank [] w := by
  cases w with
  | nil => rfl
  | cons a w => rfl

theorem ofInput_last (w : List C) (blank : C) : ofInput w blank .last = atLeft blank w.reverse [] := by
  rw [ofInput]
  cases w.reverse with
  | nil => rfl
  | cons a l => rfl

theorem atRight_replicate (blank : C) (left : List C) (j : Nat) :
    atRight blank left (List.replicate j blank) =
      ⟨left, blank, List.replicate (j - 1) blank, blank⟩ := by
  cases j with
  | zero => rfl
  | succ j => rfl

theorem atLeft_replicate (blank : C) (i : Nat) (right : List C) :
    atLeft blank (List.replicate i blank) right =
      ⟨List.replicate (i - 1) blank, blank, right, blank⟩ := by
  cases i with
  | zero => rfl
  | succ i => rfl

theorem cells_atLeft {left : List C} (hleft : left ≠ []) (blank : C) (right : List C) :
    (atLeft blank left right).cells = left.reverse ++ right := by
  cases left with
  | nil => exact absurd rfl hleft
  | cons a left => simp [atLeft, cells, leftCells]

theorem blank_atLeft (blank : C) (left right : List C) : (atLeft blank left right).blank = blank := by
  cases left with
  | nil => rfl
  | cons a left => rfl

variable [Ordered C] {blank : C} {v left : List C}

theorem trim_append_replicate (blank : C) (v : List C) (j : Nat) :
    trim blank (v ++ List.replicate j blank) = trim blank v := by
  unfold trim
  rw [List.dropWhile_append]
  cases v.dropWhile (· = blank) with
  | nil => simp
  | cons a r => simp [List.dropWhile_append]

theorem trim_eq_self (h : blank ∉ v) : trim blank v = v := by
  have hkeep (l : List C) (hl : blank ∉ l) : l.dropWhile (· = blank) = l := by
    cases l with
    | nil => rfl
    | cons a l =>
      have hne : a ≠ blank := fun heq => hl (heq ▸ List.mem_cons_self)
      simp [hne]
  unfold trim
  rw [hkeep v h, hkeep v.reverse (by simpa using h), List.reverse_reverse]

theorem contents_atLeft (hleft : left ≠ []) (h : blank ∉ left) (j : Nat) :
    (atLeft blank left (List.replicate j blank)).contents = left.reverse := by
  rw [contents, blank_atLeft, cells_atLeft hleft, trim_append_replicate]
  exact trim_eq_self (by simpa using h)

end Tape

end TableMachines
