import TableMachines.Proofs.Catalog.Balance
import TableMachines.Proofs.Finite.Agreement
import TableMachines.Proofs.Finite.Path
import TableMachines.Proofs.Subset.Simulation

namespace TableMachines.Catalog

open Nfa SortedSet Table

def Over (letters w : List Char) : Prop :=
  ∀ c ∈ w, c ∈ letters

def ContainsAb (w : List Char) : Prop :=
  Over ['a', 'b'] w ∧ ['a', 'b'] <:+: w

def ThirdFromLastB (w : List Char) : Prop :=
  Over ['a', 'b'] w ∧ 3 ≤ w.length ∧ w[w.length - 3]? = some 'b'

def MultipleOfTwoOrThree (w : List Char) : Prop :=
  Over ['a'] w ∧ (2 ∣ w.length ∨ 3 ∣ w.length)

variable {letters w : List Char} {c : Char} {s t : UInt32} {a : Option Char}

@[simp] theorem over_nil : Over letters [] := by
  simp [Over]

@[simp] theorem over_cons : Over letters (c :: w) ↔ c ∈ letters ∧ Over letters w := by
  simp [Over]

section ContainsAb

theorem mem_containsAb :
    ⟨s, a, t⟩ ∈ containsAb.toNfa.rules ↔
      (s = 1 ∧ a = some 'a' ∧ t = 2) ∨ (s = 1 ∧ a = some 'b' ∧ t = 1) ∨
      (s = 2 ∧ a = some 'a' ∧ t = 2) ∨ (s = 2 ∧ a = some 'b' ∧ t = 3) ∨
      (s = 3 ∧ a = some 'a' ∧ t = 3) ∨ (s = 3 ∧ a = some 'b' ∧ t = 3) := by
  simp [Dfa.toNfa, containsAb, finite]

theorem mem_accept_containsAb : s ∈ containsAb.toNfa.accept ↔ s = 3 :=
  mem_singleton

theorem infix_ab_cons : ['a', 'b'] <:+: c :: w ↔ (c = 'a' ∧ ['b'] <+: w) ∨ ['a', 'b'] <:+: w := by
  rw [List.infix_cons_iff, List.cons_prefix_cons, eq_comm]

theorem acceptsFrom_containsAb (w : List Char) :
    (containsAb.toNfa.AcceptsFrom 3 w ↔ Over ['a', 'b'] w) ∧
    (containsAb.toNfa.AcceptsFrom 2 w ↔ Over ['a', 'b'] w ∧ ['a', 'b'] <:+: 'a' :: w) ∧
    (containsAb.toNfa.AcceptsFrom 1 w ↔ Over ['a', 'b'] w ∧ ['a', 'b'] <:+: w) := by
  induction w with
  | nil =>
    simp (disch := simp [mem_containsAb]) only [acceptsFrom_nil, mem_accept_containsAb]
    simp [infix_ab_cons]
  | cons c w ih =>
    simp (disch := simp [mem_containsAb]) only [acceptsFrom_cons, mem_containsAb]
    obtain ⟨hfound, hafter, hstart⟩ := ih
    by_cases ha : c = 'a'
    · subst ha
      simp [hfound, hafter, infix_ab_cons]
    · by_cases hb : c = 'b'
      · subst hb
        simp [hfound, hstart, infix_ab_cons]
      · simp [ha, hb]

end ContainsAb

section ThirdFromLastB

theorem mem_thirdFromLastB :
    ⟨s, a, t⟩ ∈ thirdFromLastB.rules ↔
      (s = 1 ∧ a = some 'a' ∧ t = 1) ∨ (s = 2 ∧ a = some 'a' ∧ t = 3) ∨
      (s = 3 ∧ a = some 'a' ∧ t = 4) ∨ (s = 1 ∧ a = some 'b' ∧ t = 1) ∨
      (s = 1 ∧ a = some 'b' ∧ t = 2) ∨ (s = 2 ∧ a = some 'b' ∧ t = 3) ∨
      (s = 3 ∧ a = some 'b' ∧ t = 4) := by
  simp [thirdFromLastB, finite]

theorem mem_accept_thirdFromLastB : s ∈ thirdFromLastB.accept ↔ s = 4 :=
  mem_singleton

theorem third_from_last_cons :
    (3 ≤ (c :: w).length ∧ (c :: w)[(c :: w).length - 3]? = some 'b') ↔
      (3 ≤ w.length ∧ w[w.length - 3]? = some 'b') ∨ (c = 'b' ∧ w.length = 2) := by
  obtain hlt | heq | hgt := lt_trichotomy w.length 2
  · have hshort : ¬ 3 ≤ (c :: w).length := by
      rw [List.length_cons]
      omega
    simp only [hshort, show ¬ 3 ≤ w.length by omega, show w.length ≠ 2 by omega, false_and, and_false,
      or_false]
  · simp [heq]
  · -- the third letter from the end is one of the rest of the word already
    have hindex : (c :: w).length - 3 = w.length - 3 + 1 := by
      rw [List.length_cons]
      omega
    rw [hindex, List.getElem?_cons_succ, List.length_cons]
    simp only [show 3 ≤ w.length + 1 by omega, show 3 ≤ w.length by omega,
      show w.length ≠ 2 by omega, true_and, and_false, or_false]

theorem acceptsFrom_thirdFromLastB (w : List Char) :
    (thirdFromLastB.AcceptsFrom 4 w ↔ Over ['a', 'b'] w ∧ w.length = 0) ∧
    (thirdFromLastB.AcceptsFrom 3 w ↔ Over ['a', 'b'] w ∧ w.length = 1) ∧
    (thirdFromLastB.AcceptsFrom 2 w ↔ Over ['a', 'b'] w ∧ w.length = 2) ∧
    (thirdFromLastB.AcceptsFrom 1 w ↔ ThirdFromLastB w) := by
  unfold ThirdFromLastB
  induction w with
  | nil =>
    simp (disch := simp [mem_thirdFromLastB]) only [acceptsFrom_nil, mem_accept_thirdFromLastB]
    simp
  | cons c w ih =>
    simp (disch := simp [mem_thirdFromLastB]) only [acceptsFrom_cons, mem_thirdFromLastB,
      third_from_last_cons]
    obtain ⟨hlast, hsecond, hthird, hstart⟩ := ih
    by_cases ha : c = 'a'
    · subst ha
      simp [hlast, hsecond, hstart]
    · by_cases hb : c = 'b'
      · subst hb
        simp [hlast, hsecond, hthird, hstart, or_and_right, exists_or, and_or_left]
      · simp [ha, hb]

end ThirdFromLastB

section MultipleOfTwoOrThree

theorem mem_multipleOfTwoOrThree :
    ⟨s, a, t⟩ ∈ multipleOfTwoOrThree.rules ↔
      (s = 1 ∧ a = none ∧ t = 2) ∨ (s = 1 ∧ a = none ∧ t = 4) ∨
      (s = 2 ∧ a = some 'a' ∧ t = 3) ∨ (s = 3 ∧ a = some 'a' ∧ t = 2) ∨
      (s = 4 ∧ a = some 'a' ∧ t = 5) ∨ (s = 5 ∧ a = some 'a' ∧ t = 6) ∨
      (s = 6 ∧ a = some 'a' ∧ t = 4) := by
  simp [multipleOfTwoOrThree, finite]

theorem mem_accept_multipleOfTwoOrThree : s ∈ multipleOfTwoOrThree.accept ↔ s = 2 ∨ s = 4 := by
  simp [multipleOfTwoOrThree, mem_ofList]

-- in a loop the letters read since its accept state count as part of the word
theorem acceptsFrom_counters (w : List Char) :
    (multipleOfTwoOrThree.AcceptsFrom 2 w ↔ Over ['a'] w ∧ 2 ∣ w.length) ∧
    (multipleOfTwoOrThree.AcceptsFrom 3 w ↔ Over ['a'] w ∧ 2 ∣ w.length + 1) ∧
    (multipleOfTwoOrThree.AcceptsFrom 4 w ↔ Over ['a'] w ∧ 3 ∣ w.length) ∧
    (multipleOfTwoOrThree.AcceptsFrom 5 w ↔ Over ['a'] w ∧ 3 ∣ w.length + 1) ∧
    (multipleOfTwoOrThree.AcceptsFrom 6 w ↔ Over ['a'] w ∧ 3 ∣ w.length + 2) := by
  induction w with
  | nil =>
    simp (disch := simp [mem_multipleOfTwoOrThree]) only [acceptsFrom_nil,
      mem_accept_multipleOfTwoOrThree]
    simp
  | cons c w ih =>
    simp (disch := simp [mem_multipleOfTwoOrThree]) only [acceptsFrom_cons,
      mem_multipleOfTwoOrThree]
    obtain ⟨h₂, h₃, h₄, h₅, h₆⟩ := ih
    by_cases ha : c = 'a'
    · subst ha
      simp [h₂, h₃, h₄, h₅, h₆]
    · simp [ha]

theorem acceptsFrom_multipleOfTwoOrThree (w : List Char) :
    multipleOfTwoOrThree.AcceptsFrom 1 w ↔ MultipleOfTwoOrThree w := by
  obtain ⟨heven, _, hthree, _⟩ := acceptsFrom_counters w
  rw [acceptsFrom_of_free (by simp [mem_multipleOfTwoOrThree])
    (by simp [mem_accept_multipleOfTwoOrThree])]
  simp [mem_multipleOfTwoOrThree, or_and_right, exists_or, heven, hthree, MultipleOfTwoOrThree,
    and_or_left]

end MultipleOfTwoOrThree

theorem decides_of_nfa {name : String} {entry : NamedMachine} {m : Nfa UInt32 Char}
    {language : List Char → Prop} (hname : lookup name = .ok entry) (hmachine : entry.machine = .nfa m)
    (hlanguage : ∀ w, m.AcceptsFrom m.start w ↔ language w) : Decides name 0 language := by
  refine ⟨entry, hname, fun w => ⟨m.accepts w, fun _ _ => ?_, ?_⟩⟩
  · rw [hmachine]
    rfl
  · rw [← acceptsFrom_start, hlanguage]

theorem decides_of_dfa {name : String} {entry : NamedMachine} {m : Dfa UInt32 Char}
    {language : List Char → Prop} (hname : lookup name = .ok entry) (hmachine : entry.machine = .dfa m)
    (haccepts : ∀ w, m.accepts? w = some (m.toNfa.accepts w))
    (hlanguage : ∀ w, m.toNfa.AcceptsFrom m.start w ↔ language w) : Decides name 0 language := by
  refine ⟨entry, hname, fun w => ⟨m.toNfa.accepts w, fun _ _ => ?_, ?_⟩⟩
  · rw [hmachine]
    exact congrArg (Option.map Except.ok) (haccepts w)
  · rw [← acceptsFrom_start]
    exact hlanguage w

def DeterminizedDecides (name : String) (language : List Char → Prop) : Prop :=
  ∃ entry d, lookup name = .ok entry ∧ entry.determinize = .ok d ∧
    ∀ w, ∃ b, d.accepts? w = some b ∧ (b = true ↔ language w)

theorem determinizedDecides_of_nfa {name : String} {entry : NamedMachine} {m : Nfa UInt32 Char}
    {language : List Char → Prop} (hname : lookup name = .ok entry) (hmachine : entry.machine = .nfa m)
    (hlanguage : ∀ w, m.AcceptsFrom m.start w ↔ language w) : DeterminizedDecides name language := by
  refine ⟨entry, m.determinize, hname, ?_, fun w => ⟨m.accepts w, m.determinize_accepts? w, ?_⟩⟩
  · rw [NamedMachine.determinize, hmachine]
  · rw [← acceptsFrom_start, hlanguage]

theorem decides_finite_entries :
    Decides "contains-ab" 0 ContainsAb ∧ Decides "third-from-last-b" 0 ThirdFromLastB ∧
      Decides "multiple-of-two-or-three" 0 MultipleOfTwoOrThree ∧
      DeterminizedDecides "third-from-last-b" ThirdFromLastB ∧
      DeterminizedDecides "multiple-of-two-or-three" MultipleOfTwoOrThree := by
  have hthird (w : List Char) := (acceptsFrom_thirdFromLastB w).2.2.2
  have hmultiple := acceptsFrom_multipleOfTwoOrThree
  refine ⟨?_, decides_of_nfa rfl rfl hthird, decides_of_nfa rfl rfl hmultiple,
    determinizedDecides_of_nfa rfl rfl hthird, determinizedDecides_of_nfa rfl rfl hmultiple⟩
  apply decides_of_dfa rfl rfl
  · exact Dfa.accepts?_eq_toNfa (by decide) (by decide) (by decide)
  · exact fun w => (acceptsFrom_containsAb w).2.2

end TableMachines.Catalog
