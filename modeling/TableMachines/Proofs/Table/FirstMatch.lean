import Mathlib.Order.Basic
import TableMachines.Table

namespace TableMachines.Table

variable {R S C K : Type} [Ordered C] [Rule R S C K] {rules rules' : Table R} {n bound : Nat}
  {k k' : K} {a : Option C}

theorem exists_rule_of_next? (h : next? rules k a = some k') :
    ∃ r ∈ rules, Rule.Applies r k a ∧ Rule.follow r k = k' := by
  obtain ⟨r, hr, hk⟩ := Option.map_eq_some_iff.1 h
  exact ⟨r, List.mem_of_find?_eq_some hr, by simpa using List.find?_some hr, hk⟩

theorem next?_eq_some (happ : ∃ r ∈ rules, Rule.Applies r k a)
    (hall : ∀ r ∈ rules, Rule.Applies r k a → Rule.follow r k = k') : next? rules k a = some k' := by
  cases h : next? rules k a with
  | none =>
    obtain ⟨r, hr, hk⟩ := happ
    exact absurd hk (next?_eq_none_iff.1 h r hr)
  | some l =>
    obtain ⟨r, hr, hk, rfl⟩ := exists_rule_of_next? h
    rw [hall r hr hk]

inductive FreeRun (rules : Table R) : Nat → K → K → Prop
  | refl (k : K) : FreeRun rules 0 k k
  | head {n : Nat} {k l k' : K} :
      next? rules k none = some l → FreeRun rules n l k' → FreeRun rules (n + 1) k k'

theorem freeRun_zero_iff : FreeRun rules 0 k k' ↔ k = k' := by
  constructor
  · rintro ⟨⟩
    rfl
  · rintro rfl
    exact .refl k

theorem freeRun_succ_iff :
    FreeRun rules (n + 1) k k' ↔ ∃ l, next? rules k none = some l ∧ FreeRun rules n l k' := by
  constructor
  · rintro (_ | ⟨hl, hrun⟩)
    exact ⟨_, hl, hrun⟩
  · rintro ⟨l, hl, hrun⟩
    exact .head hl hrun

def Final (rules : Table R) (k : K) : Prop :=
  ∀ r ∈ rules, ¬ Rule.Applies r k none

def EndsAt (rules : Table R) (n : Nat) (k k' : K) : Prop :=
  FreeRun rules n k k' ∧ Final rules k'

theorem final_iff : Final rules k ↔ next? rules k none = none :=
  next?_eq_none_iff.symm

theorem EndsAt.length_eq {m : Nat} {l : K} (h : EndsAt rules n k k') (h' : EndsAt rules m k l) :
    n = m := by
  obtain ⟨hrun, hfinal⟩ := h
  induction hrun generalizing m with
  | refl k =>
    cases h'.1 with
    | refl => rfl
    | head hl _ => cases (final_iff.1 hfinal).symm.trans hl
  | head hl _ ih =>
    cases h'.1 with
    | refl => cases (final_iff.1 h'.2).symm.trans hl
    | head hl' hrun' =>
      cases hl.symm.trans hl'
      exact congrArg (· + 1) (ih ⟨hrun', h'.2⟩ hfinal)

theorem settle?_eq_some_iff : settle? rules bound k = some k' ↔ ∃ n ≤ bound, EndsAt rules n k k' := by
  constructor
  · intro h
    fun_induction settle? rules bound k with
    | case1 bound k hk =>
      cases h
      exact ⟨0, Nat.zero_le _, .refl _, final_iff.2 hk⟩
    | case2 => cases h
    | case3 k l hl bound ih =>
      obtain ⟨n, hn, hrun, hfinal⟩ := ih h
      exact ⟨n + 1, Nat.succ_le_succ hn, .head hl hrun, hfinal⟩
  · rintro ⟨n, hn, hrun, hfinal⟩
    induction hrun generalizing bound with
    | refl k => exact settle?_of_none (final_iff.1 hfinal) bound
    | @head n k l k' hl _ ih =>
      obtain ⟨b, rfl⟩ : ∃ b, bound = b + 1 := ⟨bound - 1, by omega⟩
      rw [settle?_succ_of_some hl]
      exact ih (by omega) hfinal

theorem final_of_settle? (h : settle? rules bound k = some k') : Final rules k' := by
  obtain ⟨n, _, hend⟩ := settle?_eq_some_iff.1 h
  exact hend.2

theorem settle?_settled (h : settle? rules n k = some k') (bound : Nat) :
    settle? rules bound k' = some k' :=
  settle?_of_none (final_iff.1 (final_of_settle? h)) bound

theorem settle?_of_le (h : settle? rules n k = some k') (hn : n ≤ bound) :
    settle? rules bound k = some k' := by
  obtain ⟨i, hi, hend⟩ := settle?_eq_some_iff.1 h
  exact settle?_eq_some_iff.2 ⟨i, Nat.le_trans hi hn, hend⟩

theorem settle?_eq_none_iff :
    settle? rules bound k = none ↔ ∃ k', FreeRun rules (bound + 1) k k' := by
  fun_induction settle? rules bound k with
  | case1 bound k hk => simp [freeRun_succ_iff, hk]
  | case2 k l hl => simp [freeRun_succ_iff, freeRun_zero_iff, hl]
  | case3 k l hl bound ih =>
    rw [ih]
    constructor
    · rintro ⟨k', hrun⟩
      exact ⟨k', .head hl hrun⟩
    · rintro ⟨k', hrun⟩
      obtain ⟨l', hl', hrun⟩ := freeRun_succ_iff.1 hrun
      cases hl.symm.trans hl'
      exact ⟨k', hrun⟩

structure SameMoves (rules rules' : Table R) : Prop where
  free : ∀ k, next? rules k none = next? rules' k none
  read : ∀ k a, Final rules k → next? rules k (some a) = next? rules' k (some a)

theorem SameMoves.settle? (h : SameMoves rules rules') (bound : Nat) (k : K) :
    settle? rules bound k = settle? rules' bound k := by
  fun_induction Table.settle? rules bound k with
  | case1 bound k hk =>
    have hk' : next? rules' k none = none := (h.free k).symm.trans hk
    rw [settle?_of_none hk']
  | case2 k l hl =>
    have hl' : next? rules' k none = some l := (h.free k).symm.trans hl
    rw [settle?_zero_of_some hl']
  | case3 k l hl bound ih =>
    have hl' : next? rules' k none = some l := (h.free k).symm.trans hl
    rw [settle?_succ_of_some hl', ih]

end TableMachines.Table
