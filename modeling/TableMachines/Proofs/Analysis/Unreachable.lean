import TableMachines.Catalog.Tables
import TableMachines.Proofs.Analysis.Audit
import TableMachines.Proofs.Finite.Reading
import TableMachines.Proofs.Pushdown.Moves
import TableMachines.Proofs.Pushdown.Reading
import TableMachines.Proofs.Table.Linked
import TableMachines.Proofs.Turing.TwoWay

namespace TableMachines

open Relation SortedSet Table

namespace Table

variable {R S C K : Type} [Ordered S] [Rule R S C K] {rules : Table R} {start t : S}
  {accept : SortedSet S}

structure ReportsUnreachable (rules : Table R) (start : S) (accept : SortedSet S)
    (listed : List S) : Prop where
  ends : ∀ n, rules.length < n →
    saturate? (targets rules) n {start} = some (reachable rules start)
  ascending : Increasing listed
  mem_iff : ∀ t, t ∈ listed ↔ t ∈ accept ∧ ¬ ReflTransGen (Linked rules) start t
  none_iff : unreachableProblem? rules start accept = none ↔ listed = []
  some_iff : ∀ problem, unreachableProblem? rules start accept = some problem ↔
    listed ≠ [] ∧ problem = .unreachable listed

theorem mem_unreachable_iff : t ∈ unreachable rules start accept ↔
    t ∈ accept ∧ ¬ ReflTransGen (Linked rules) start t := by
  rw [mem_unreachable, leads_targets_iff]

theorem reportsUnreachable (rules : Table R) (start : S) (accept : SortedSet S) :
    ReportsUnreachable rules start accept (unreachable rules start accept) := by
  constructor
  · intro n hn
    exact saturate?_eq_reachable hn
  · exact (accept.filter (· ∉ reachable rules start)).sorted
  · intro t
    exact mem_unreachable_iff
  · unfold unreachableProblem?
    cases unreachable rules start accept with
    | nil => simp
    | cons => simp
  · intro problem
    unfold unreachableProblem?
    cases unreachable rules start accept with
    | nil => simp
    | cons => simp [eq_comm]

end Table

variable {S C : Type} [Ordered S] [Ordered C] {q : S}

namespace Dfa

variable {m : Dfa S C} {p z : Control S}

def NeverIn (m : Dfa S C) (q : S) : Prop :=
  ∀ w p, m.run? (.active m.start) w = some p →
    p.state? ≠ some q ∧ ∀ z, m.settled? p = some z → z.state? ≠ some q

theorem within_settled? {start : S} (h : Within m.rules start p.state?)
    (hz : m.settled? p = some z) : Within m.rules start z.state? := by
  cases p with
  | stuck =>
    cases hz
    exact h
  | active s =>
    obtain ⟨t, ht, rfl⟩ := Option.map_eq_some_iff.1 hz
    exact Within.settle? (k := s) h ht

theorem within_read? {start : S} {a : C} (h : Within m.rules start p.state?)
    (hz : m.read? p a = some z) : Within m.rules start z.state? := by
  obtain ⟨y, hy, hz⟩ := Option.bind_eq_some_iff.1 hz
  have hwithin := within_settled? h hy
  cases y with
  | stuck =>
    cases hz
    exact nofun
  | active s =>
    cases hnext : next? m.rules s (some a) with
    | none =>
      simp only [hnext] at hz
      cases hz
      exact nofun
    | some t =>
      simp only [hnext] at hz
      cases hz
      exact Within.next? (k := s) hwithin hnext

theorem neverIn_of_not_linked (h : ¬ ReflTransGen (Linked m.rules) m.start q) : m.NeverIn q := by
  intro w p hrun
  have hstart : Within m.rules m.start (Control.active m.start).state? :=
    within_start m.rules m.start
  have hwithin : Within m.rules m.start p.state? :=
    of_feed (fun _ _ _ => within_read?) hstart hrun
  refine ⟨hwithin.ne_some h, ?_⟩
  intro z hz
  exact (within_settled? hwithin hz).ne_some h

end Dfa

namespace Nfa

variable {m : Nfa S C}

def NeverIn (m : Nfa S C) (q : S) : Prop :=
  ∀ w, q ∉ m.closed (m.run {m.start} w)

theorem neverIn_iff : m.NeverIn q ↔ ¬ ReflTransGen (Linked m.rules) m.start q := by
  rw [← exists_spells_iff_linked, not_exists]
  apply forall_congr'
  intro w
  simp only [mem_closed_run, mem_singleton, exists_eq_left]

theorem problem?_eq_none_iff :
    m.problem? = none ↔ ∀ q ∈ m.accept, ∃ w, q ∈ m.closed (m.run {m.start} w) := by
  unfold problem?
  rw [unreachableProblem?_eq_none_iff]
  apply forall₂_congr
  intro q _
  rw [leads_targets_iff, ← not_iff_not, ← neverIn_iff, NeverIn, not_exists]

end Nfa

namespace Dpda

variable {m : Dpda S C} {bound : Nat} {k l : PushdownConfig S C}

def NeverIn (m : Dpda S C) (q : S) : Prop :=
  ∀ bound w k, m.run? bound m.startConfig w = some k →
    k.control.state? ≠ some q ∧ ∀ l, m.settled? bound k = some l → l.control.state? ≠ some q

theorem within_read? {start : S} {a : C} (h : Within m.rules start k.control.state?)
    (hl : m.read? bound k a = some l) : Within m.rules start l.control.state? := by
  obtain ⟨k', hk', hl⟩ := Option.bind_eq_some_iff.1 hl
  have hwithin := Within.settle? (k := k) h hk'
  cases hnext : next? m.rules k' (some a) with
  | none =>
    simp only [hnext] at hl
    cases hl
    exact nofun
  | some k'' =>
    simp only [hnext] at hl
    cases hl
    exact hwithin.next? hnext

theorem neverIn_of_not_linked (h : ¬ ReflTransGen (Linked m.rules) m.start q) : m.NeverIn q := by
  intro bound w k hrun
  have hstart : Within m.rules m.start m.startConfig.control.state? := within_start m.rules m.start
  have hwithin : Within m.rules m.start k.control.state? :=
    of_feed (fun _ _ _ => within_read?) hstart hrun
  refine ⟨hwithin.ne_some h, ?_⟩
  intro l hl
  exact (Within.settle? (k := k) hwithin hl).ne_some h

end Dpda

namespace Npda

variable {m : Npda S C}

def NeverIn (m : Npda S C) (q : S) : Prop :=
  ∀ bound w ks ls, m.run? bound {m.startConfig} w = some ks → m.closed? bound ks = some ls →
    ∀ l ∈ ls, l.control.state? ≠ some q

theorem neverIn_of_not_linked (h : ¬ ReflTransGen (Linked m.rules) m.start q) : m.NeverIn q := by
  intro bound w ks ls hks hls l hl
  obtain ⟨k, hk, hspells⟩ := (mem_closed?_run? hks hls).1 hl
  rw [mem_singleton] at hk
  rw [hk] at hspells
  have hstart : Within m.rules m.start m.startConfig.control.state? := within_start m.rules m.start
  exact (Within.spells (k := m.startConfig) hstart hspells).ne_some h

end Npda

namespace Dtm

variable {m : Dtm S C}

def NeverIn (m : Dtm S C) (q : S) : Prop :=
  ∀ tape n, (m.afterSteps n (m.startRun tape)).config.state ≠ q

theorem within_step {start : S} {r : Run S C} (h : Within m.rules start (some r.config.state)) :
    Within m.rules start (some (m.step r).2.config.state) := by
  cases hnext : m.rules.nextTuring? r.config with
  | none =>
    rw [step_of_none hnext]
    exact h
  | some k =>
    rw [step_of_some hnext]
    exact Within.next? (k := r.config) h hnext

theorem neverIn_of_not_linked (h : ¬ ReflTransGen (Linked m.rules) m.start q) : m.NeverIn q := by
  intro tape n hq
  have hwithin : Within m.rules m.start (some (m.afterSteps n (m.startRun tape)).config.state) := by
    clear hq
    induction n with
    | zero => exact within_start m.rules m.start
    | succ n ih =>
      rw [afterSteps, Function.iterate_succ_apply']
      exact within_step ih
  exact hwithin.ne_some h (congrArg some hq)

end Dtm

theorem unreachable_states_never_entered :
    (∀ (R K : Type) [Rule R S C K] (rules : Table R) (start : S) (accept : SortedSet S),
      ReportsUnreachable rules start accept (unreachable rules start accept)) ∧
    (∀ m : Dfa S C, ∀ q ∈ unreachable m.rules m.start m.accept, m.NeverIn q) ∧
    (∀ m : Nfa S C, ∀ q ∈ unreachable m.rules m.start m.accept, m.NeverIn q) ∧
    (∀ m : Dpda S C, ∀ q ∈ unreachable m.rules m.start m.accept, m.NeverIn q) ∧
    (∀ m : Npda S C, ∀ q ∈ unreachable m.rules m.start m.accept, m.NeverIn q) ∧
    (∀ m : Dtm S C, ∀ q ∈ unreachable m.rules m.start m.accept, m.NeverIn q) ∧
    ∀ m : Nfa S C, m.problem? = none ↔ ∀ q ∈ m.accept, ∃ w, q ∈ m.closed (m.run {m.start} w) := by
  refine ⟨?_, ?_, ?_, ?_, ?_, ?_, ?_⟩
  · intro R K _ rules start accept
    exact reportsUnreachable rules start accept
  · intro m q hq
    exact Dfa.neverIn_of_not_linked (mem_unreachable_iff.1 hq).2
  · intro m q hq
    exact Nfa.neverIn_iff.2 (mem_unreachable_iff.1 hq).2
  · intro m q hq
    exact Dpda.neverIn_of_not_linked (mem_unreachable_iff.1 hq).2
  · intro m q hq
    exact Npda.neverIn_of_not_linked (mem_unreachable_iff.1 hq).2
  · intro m q hq
    exact Dtm.neverIn_of_not_linked (mem_unreachable_iff.1 hq).2
  · intro m
    exact Nfa.problem?_eq_none_iff

theorem unreachable_states_never_entered_one :
    let m : Dfa UInt32 Char := { Catalog.containsAb with start := 2, accept := .ofList [1, 3] }
    let m₁ : Nfa UInt32 Char := { Catalog.thirdFromLastB with start := 2, accept := .ofList [1, 4] }
    let m₂ : Dpda UInt32 Char := { Catalog.markedPalindrome with start := 2, accept := .ofList [1, 3] }
    let m₃ : Npda UInt32 Char := { Catalog.evenPalindrome with start := 2, accept := .ofList [1, 3] }
    let m₄ : Dtm UInt32 Char := { Catalog.binaryIncrement with start := 2, accept := .ofList [1, 3] }
    m.NeverIn 1 ∧ m₁.NeverIn 1 ∧ m₂.NeverIn 1 ∧ m₃.NeverIn 1 ∧ m₄.NeverIn 1 := by
  intro m m₁ m₂ m₃ m₄
  obtain ⟨_, hdfa, hnfa, hdpda, hnpda, hdtm, _⟩ :=
    unreachable_states_never_entered (S := UInt32) (C := Char)
  exact ⟨hdfa m 1 (by decide), hnfa m₁ 1 (by decide), hdpda m₂ 1 (by decide),
    hnpda m₃ 1 (by decide), hdtm m₄ 1 (by decide)⟩

end TableMachines
