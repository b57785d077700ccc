import TableMachines.Catalog.Tables
import TableMachines.Proofs.Pushdown.Keeping

namespace TableMachines.Catalog

open Dpda PushdownConfig SortedSet Table

/-- The machine of that name answers on every text under each bound on free moves from `least` on,
and accepts the texts of the language alone. -/
def Decides (name : String) (least : Nat) (language : List Char → Prop) : Prop :=
  ∃ entry, lookup name = .ok entry ∧ ∀ w, ∃ b,
    (∀ bound, least ≤ bound → entry.machine.accepts? bound w = some (.ok b)) ∧
      (b = true ↔ language w)

theorem decides_of_keeps {name : String} {entry : NamedMachine} {m : Dpda UInt32 Char} {X : Type}
    {least : Nat} {step : X → Char → Option X} {stored settled : X → PushdownConfig UInt32 Char}
    {x y : X} {language : List Char → Prop} (hname : lookup name = .ok entry)
    (hmachine : entry.machine = .dpda m) (h : m.Keeps least step stored settled)
    (hstart : m.settled? least m.startConfig = some (settled x))
    (haccept : ∀ z, (settled z).control.state?.any (· ∈ m.accept) = true ↔ z = y)
    (hlanguage : ∀ w, w.foldlM step x = some y ↔ language w) : Decides name least language := by
  refine ⟨entry, hname, ?_⟩
  intro w
  let b := (w.foldlM step x).any fun z => (settled z).control.state?.any (· ∈ m.accept)
  refine ⟨b, ?_, ?_⟩
  · intro bound hbound
    rw [hmachine]
    exact congrArg (Option.map Except.ok) (h.accepts? hstart hbound w)
  · rw [← hlanguage, Option.any_eq_true]
    simp only [haccept, exists_eq_right]

theorem next?_of_not_mem_alphabet {m : Dpda UInt32 Char} {a : Char} (ha : a ∉ m.rules.alphabet)
    (k : PushdownConfig UInt32 Char) : next? m.rules k (some a) = none := by
  apply next?_eq_none_iff.2
  intro r hr happ
  exact ha (mem_alphabet.2 ⟨r, hr, happ.1⟩)

section Parentheses

def depthStep : Nat → Char → Option Nat
  | n, '(' => some (n + 1)
  | n + 1, ')' => some n
  | _, _ => none

def depthStack (n : Nat) : List Char :=
  List.replicate n 'b' ++ ['$']

def depthSettled : Nat → PushdownConfig UInt32 Char
  | 0 => ofPair (1, depthStack 0)
  | n + 1 => ofPair (2, depthStack (n + 1))

theorem mem_alphabet_parentheses {c : Char} :
    c ∈ balancedParentheses.rules.alphabet ↔ c = '(' ∨ c = ')' := by
  have halphabet : balancedParentheses.rules.alphabet = .ofList ['(', ')'] := by decide
  simp [halphabet, mem_ofList]

theorem depthStep_foreign {c : Char} (hopen : c ≠ '(') (hclose : c ≠ ')') (n : Nat) :
    depthStep n c = none := by
  unfold depthStep
  split
  · exact absurd rfl hopen
  · exact absurd rfl hclose
  · rfl

theorem keeps_depth : balancedParentheses.Keeps 1 depthStep (fun n => ofPair (2, depthStack n))
    depthSettled where
  settles n := by
    cases n with
    | zero => rfl
    | succ n =>
      apply settle?_of_none
      exact next?_ofPair _ 2 'b' (depthStack n) none
  reads n c := by
    by_cases hc : c ∈ balancedParentheses.rules.alphabet
    · -- the state, the symbol on top and the symbol read are known, so the rule is found by evaluation
      rcases mem_alphabet_parentheses.1 hc with rfl | rfl
      · cases n with
        | zero => exact next?_ofPair _ 1 '$' [] _
        | succ n => exact next?_ofPair _ 2 'b' (depthStack n) _
      · cases n with
        | zero => exact next?_ofPair _ 1 '$' [] _
        | succ n => exact next?_ofPair _ 2 'b' (depthStack n) _
    · rw [next?_of_not_mem_alphabet hc]
      rw [mem_alphabet_parentheses, not_or] at hc
      rw [depthStep_foreign hc.1 hc.2]
      rfl

theorem forall_prefix_cons {P : List Char → Prop} {c : Char} {w : List Char} :
    (∀ u, u <+: c :: w → P u) ↔ P [] ∧ ∀ u, u <+: w → P (c :: u) := by
  constructor
  · intro h
    exact ⟨h [] List.nil_prefix, fun u hu => h (c :: u) (List.cons_prefix_cons.2 ⟨rfl, hu⟩)⟩
  · rintro ⟨hnil, hcons⟩ u hu
    rcases List.prefix_cons_iff.1 hu with rfl | ⟨v, rfl, hv⟩
    · exact hnil
    · exact hcons v hv

theorem foldlM_depthStep_iff {w : List Char} {n d : Nat} : w.foldlM depthStep n = some d ↔
    (∀ c ∈ w, c = '(' ∨ c = ')') ∧ (∀ u, u <+: w → u.count ')' ≤ n + u.count '(') ∧
      d + w.count ')' = n + w.count '(' := by
  induction w generalizing n with
  | nil => simp [eq_comm]
  | cons c w ih =>
    rw [List.foldlM_cons, Option.bind_eq_bind, forall_prefix_cons, List.forall_mem_cons]
    by_cases hopen : c = '('
    · subst hopen
      have hsame (u : List Char) : ('(' :: u).count ')' = u.count ')' := by simp
      have hmore (u : List Char) : n + ('(' :: u).count '(' = n + 1 + u.count '(' := by
        simp only [List.count_cons_self]
        omega
      simp only [depthStep, Option.bind_some, ih, hsame, hmore]
      simp
    by_cases hclose : c = ')'
    · subst hclose
      have hmore (u : List Char) : (')' :: u).count ')' = u.count ')' + 1 := by simp
      have hsame (u : List Char) : (')' :: u).count '(' = u.count '(' := by simp
      cases n with
      | zero =>
        -- one closing parenthesis is a prefix that has too many of them
        apply iff_of_false
        · simp [depthStep]
        · rintro ⟨_, ⟨_, hprefixes⟩, _⟩
          have hshort := hprefixes [] List.nil_prefix
          simp at hshort
      | succ n =>
        have hprefix (u : List Char) : u.count ')' + 1 ≤ n + 1 + u.count '(' ↔
            u.count ')' ≤ n + u.count '(' := by omega
        have htotal : d + (w.count ')' + 1) = n + 1 + w.count '(' ↔
            d + w.count ')' = n + w.count '(' := by omega
        simp only [depthStep, Option.bind_some, ih, hsame, hmore, hprefix, htotal]
        simp
    · rw [depthStep_foreign hopen hclose]
      simp [hopen, hclose]

def Balanced (w : List Char) : Prop :=
  (∀ c ∈ w, c = '(' ∨ c = ')') ∧ (∀ u, u <+: w → u.count ')' ≤ u.count '(') ∧
    w.count ')' = w.count '('

theorem decides_balanced : Decides "balanced-parentheses" 1 Balanced := by
  apply decides_of_keeps rfl rfl keeps_depth (x := 0) (y := 0)
  · rfl
  · intro n
    cases n with
    | zero => exact iff_of_true rfl rfl
    | succ n => exact iff_of_false Bool.false_ne_true (Nat.succ_ne_zero n)
  · intro w
    rw [foldlM_depthStep_iff, Balanced]
    simp only [Nat.zero_add]

end Parentheses

section Letters

def surplusStep (d : Int) (c : Char) : Option Int :=
  if c = 'a' then some (d + 1) else if c = 'b' then some (d - 1) else none

def surplusStack : Int → List Char
  | .ofNat n => List.replicate n 'a' ++ ['$']
  | .negSucc n => List.replicate (n + 1) 'b' ++ ['$']

def surplusSettled (d : Int) : PushdownConfig UInt32 Char :=
  ofPair (if d = 0 then 1 else 2, surplusStack d)

theorem mem_alphabet_letters {c : Char} :
    c ∈ equalAsAndBs.rules.alphabet ↔ c = 'a' ∨ c = 'b' := by
  have halphabet : equalAsAndBs.rules.alphabet = .ofList ['a', 'b'] := by decide
  simp [halphabet, mem_ofList]

theorem keeps_surplus : equalAsAndBs.Keeps 1 surplusStep (fun d => ofPair (2, surplusStack d))
    surplusSettled where
  settles d := by
    rcases d with (_ | n) | n
    · rfl
    · apply settle?_of_none
      exact next?_ofPair _ 2 'a' (surplusStack (.ofNat n)) none
    · apply settle?_of_none
      exact next?_ofPair _ 2 'b' (List.replicate n 'b' ++ ['$']) none
  reads d c := by
    by_cases hc : c ∈ equalAsAndBs.rules.alphabet
    · rcases mem_alphabet_letters.1 hc with rfl | rfl
      · rcases d with (_ | n) | _ | n
        · exact next?_ofPair _ 1 '$' [] _
        · exact next?_ofPair _ 2 'a' (surplusStack (.ofNat n)) _
        · exact next?_ofPair _ 2 'b' ['$'] _
        · exact next?_ofPair _ 2 'b' (List.replicate (n + 1) 'b' ++ ['$']) _
      · rcases d with (_ | n) | n
        · exact next?_ofPair _ 1 '$' [] _
        · have hless : surplusStep (.ofNat (n + 1)) 'b' = some (.ofNat n) := by simp [surplusStep]
          rw [hless]
          exact next?_ofPair _ 2 'a' (surplusStack (.ofNat n)) _
        · exact next?_ofPair _ 2 'b' (List.replicate n 'b' ++ ['$']) _
    · rw [next?_of_not_mem_alphabet hc]
      rw [mem_alphabet_letters, not_or] at hc
      rw [surplusStep, if_neg hc.1, if_neg hc.2]
      rfl

theorem foldlM_surplusStep_iff {w : List Char} {d e : Int} : w.foldlM surplusStep d = some e ↔
    (∀ c ∈ w, c = 'a' ∨ c = 'b') ∧ e + w.count 'b' = d + w.count 'a' := by
  induction w generalizing d with
  | nil => simp [eq_comm]
  | cons c w ih =>
    rw [List.foldlM_cons, Option.bind_eq_bind, List.forall_mem_cons]
    by_cases ha : c = 'a'
    · subst ha
      have htotal : e + w.count 'b' = d + 1 + w.count 'a' ↔
          e + w.count 'b' = d + (w.count 'a' + 1 : Nat) := by omega
      simp only [surplusStep, if_true, Option.bind_some, ih, List.count_cons_self, htotal]
      simp
    by_cases hb : c = 'b'
    · subst hb
      have htotal : e + w.count 'b' = d - 1 + w.count 'a' ↔
          e + (w.count 'b' + 1 : Nat) = d + w.count 'a' := by omega
      simp only [surplusStep, if_neg ha, if_true, Option.bind_some, ih, List.count_cons_self, htotal]
      simp
    · simp [surplusStep, ha, hb]

def EqualLetters (w : List Char) : Prop :=
  (∀ c ∈ w, c = 'a' ∨ c = 'b') ∧ w.count 'a' = w.count 'b'

theorem decides_equalLetters : Decides "equal-as-and-bs" 1 EqualLetters := by
  apply decides_of_keeps rfl rfl keeps_surplus (x := 0) (y := 0)
  · rfl
  · intro d
    by_cases hd : d = 0
    · subst hd
      exact iff_of_true rfl rfl
    · refine iff_of_false ?_ hd
      rw [surplusSettled, if_neg hd]
      exact Bool.false_ne_true
  · intro w
    rw [foldlM_surplusStep_iff, EqualLetters, Int.zero_add, Int.zero_add, Int.natCast_inj, eq_comm]

end Letters

end TableMachines.Catalog
