import TableMachines.Proofs.Finite.Closed
import TableMachines.Proofs.Finite.Reading
import TableMachines.Proofs.Table.Deterministic

namespace TableMachines

def Dfa.toNfa {S C : Type} [Ordered S] (m : Dfa S C) : Nfa S C :=
  ⟨m.start, m.accept, m.rules⟩

open SortedSet Table

variable {S C : Type} [Ordered S] [Ordered C] {s t : S} {w : List C} {p : Option S}

namespace Nfa

variable {m : Nfa S C}

theorem mem_closed_singleton : t ∈ m.closed {s} ↔ Leads (successors m.rules none) s t := by
  simp only [mem_closed, mem_singleton, exists_eq_left, spells_nil_iff]

theorem read_of_endsAt (hrules : conflict? m.rules = none) {n : Nat} (hend : EndsAt m.rules n s t)
    (a : C) : m.read {s} a = .ofOption (next? m.rules t (some a)) :=
  hend.advance_eq hrules (fun _ => mem_closed_singleton) a

theorem run_of_reads (hrules : conflict? m.rules = none) (h : Reads m.rules s w p) :
    m.run {s} w = .ofOption p := by
  induction h with
  | nil s => rfl
  | stuck w hend hnone =>
    rw [run_cons, read_of_endsAt hrules hend, hnone]
    exact feed_of_stuck rfl w
  | cons hend hnext _ ih =>
    rw [run_cons, read_of_endsAt hrules hend, hnext]
    exact ih

end Nfa

namespace Dfa

variable {m : Dfa S C}

theorem read?_of_endsAt (hcycle : freeCycle? m.rules = none) {n : Nat} (hend : EndsAt m.rules n s t)
    (a : C) : m.read? (.active s) a = some (.ofState? (next? m.rules t (some a))) :=
  read?_of_settled? (settled?_active_of_endsAt hcycle hend) a

theorem run?_of_reads (hcycle : freeCycle? m.rules = none) (h : Reads m.rules s w p) :
    m.run? (.active s) w = some (.ofState? p) := by
  induction h with
  | nil s => rfl
  | stuck w hend hnone =>
    rw [run?_cons, read?_of_endsAt hcycle hend, hnone]
    exact run?_stuck w
  | cons hend hnext _ ih =>
    rw [run?_cons, read?_of_endsAt hcycle hend, hnext]
    exact ih

theorem toNfa_accepts (m : Dfa S C) (w : List C) :
    m.toNfa.accepts w = m.toNfa.accepting (m.toNfa.run {m.start} w) := rfl

/-- The automaton beside the nondeterministic one after a word: it stands in `q`, which settles in
`z`, and answers `b`, where the other stands in `ks` and answers `b'`. -/
structure Agreement (m : Dfa S C) (w : List C) (q z : Control S) (ks : SortedSet S) (b b' : Bool) :
    Prop where
  run : m.run? (.active m.start) w = some q
  settled : m.settled? q = some z
  accepts : m.accepts? w = some b
  closed : m.toNfa.closed (m.toNfa.run {m.start} w) = ks
  nfa_accepts : m.toNfa.accepts w = b'
  stuck : q.isStuck = (m.toNfa.run {m.start} w).isEmpty
  empty_iff : q.isStuck = true ↔ ks = ∅
  final_iff : q.isStuck = false → ∃ s, z = .active s ∧ ∀ t, t ∈ ks ∧ Final m.rules t ↔ t = s
  accepts_iff : b = true ↔ ∃ t ∈ ks, t ∈ m.accept ∧ Final m.rules t
  accepts_eq : (∀ r ∈ m.rules, Rule.isFree r = true → Rule.source r ∉ m.accept) → b = b'

theorem agreement_of_stuck (hrun : m.run? (.active m.start) w = some .stuck)
    (hset : m.toNfa.run {m.start} w = ∅) : m.Agreement w .stuck .stuck ∅ false false where
  run := hrun
  settled := rfl
  accepts := accepts?_of_run? hrun
  closed := by rw [hset, Nfa.closed_empty]
  nfa_accepts := by
    rw [toNfa_accepts, hset, Nfa.accepting, Nfa.closed_empty]
    rfl
  stuck := by rw [hset]; rfl
  empty_iff := by simp
  final_iff := by simp
  accepts_iff := by simp
  accepts_eq := by simp

theorem agreement_of_active (hrules : conflict? m.rules = none) (hcycle : freeCycle? m.rules = none)
    (hrun : m.run? (.active m.start) w = some (.active s)) (hset : m.toNfa.run {m.start} w = {s})
    {n : Nat} (hend : EndsAt m.rules n s t) :
    m.Agreement w (.active s) (.active t) (m.toNfa.closed {s}) (decide (t ∈ m.accept))
      (m.toNfa.accepting {s}) := by
  have hmem (u : S) : u ∈ m.toNfa.closed {s} ↔ Leads (successors m.rules none) s u :=
    Nfa.mem_closed_singleton
  have hsettled := settled?_active_of_endsAt hcycle hend
  have hne : m.toNfa.closed {s} ≠ ∅ := fun h => not_mem_empty t (h ▸ (hmem t).2 hend.1.leads)
  exact {
    run := hrun
    settled := hsettled
    accepts := (accepts?_of_run? hrun).trans (accepting?_of_settled? hsettled)
    closed := by rw [hset]
    nfa_accepts := by rw [toNfa_accepts, hset]
    stuck := by rw [hset]; rfl
    empty_iff := by simp [hne]
    final_iff := fun _ => ⟨t, rfl, fun u => by rw [hmem, hend.final_iff hrules]⟩
    accepts_iff := by rw [hend.exists_final_iff hrules hmem, decide_eq_true_iff]
    accepts_eq := by
      intro hfree
      have hfinal (u : S) (hu : u ∈ m.accept) : Final m.rules u :=
        final_of_state? rfl fun r hr hr' hsource => hfree r hr hr' (hsource ▸ hu)
      rw [Bool.eq_iff_iff, decide_eq_true_iff, Nfa.accepting, meets_iff]
      exact (hend.exists_iff hrules hmem hfinal).symm }

theorem exists_agreement (hrules : conflict? m.rules = none) (hcycle : freeCycle? m.rules = none)
    (w : List C) : ∃ q z ks b b', m.Agreement w q z ks b b' := by
  obtain ⟨p, hp⟩ := exists_reads hcycle m.start w
  have hrun := run?_of_reads hcycle hp
  have hset : m.toNfa.run {m.start} w = .ofOption p := Nfa.run_of_reads hrules hp
  cases p with
  | none => exact ⟨_, _, _, _, _, agreement_of_stuck hrun hset⟩
  | some s =>
    obtain ⟨n, _, t, hend⟩ := exists_endsAt hcycle s
    exact ⟨_, _, _, _, _, agreement_of_active hrules hcycle hrun hset hend⟩

theorem accepts?_eq_toNfa (hrules : conflict? m.rules = none)
    (hcycle : freeCycle? m.rules = none)
    (hfree : ∀ r ∈ m.rules, Rule.isFree r = true → Rule.source r ∉ m.accept) (w : List C) :
    m.accepts? w = some (m.toNfa.accepts w) := by
  obtain ⟨_, _, _, b, b', h⟩ := exists_agreement hrules hcycle w
  rw [h.accepts, h.nfa_accepts, h.accepts_eq hfree]

end Dfa

end TableMachines
