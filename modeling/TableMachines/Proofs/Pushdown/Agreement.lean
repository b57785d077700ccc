import TableMachines.Proofs.Pushdown.Closed
import TableMachines.Proofs.Pushdown.Reading
import TableMachines.Proofs.Table.Deterministic

namespace TableMachines

open PushdownConfig SortedSet Table

variable {S C : Type} {k l : PushdownConfig S C} {w : List C} {p : Option (PushdownConfig S C)}
  {bound : Nat}

def PushdownConfig.AcceptedBy [Ordered S] (accept : SortedSet S)
    (k : PushdownConfig S C) : Prop :=
  ∃ s ∈ accept, k.control = .active s

def Dpda.toNpda [Ordered S] (m : Dpda S C) : Npda S C :=
  ⟨m.start, m.bottom, m.accept, m.rules⟩

namespace PushdownConfig

variable [Ordered S] {accept : SortedSet S}

theorem acceptedBy_iff : k.AcceptedBy accept ↔ k.control.state?.any (· ∈ accept) = true := by
  obtain ⟨control, stack⟩ := k
  cases control with
  | active s => simp [AcceptedBy]
  | stuck => simp [AcceptedBy]

variable [Ordered C] {rules : Table (PushdownRule S C)}

theorem final_of_acceptedBy (hfree : ∀ r ∈ rules, Rule.isFree r = true → Rule.source r ∉ accept)
    (h : k.AcceptedBy accept) : Final rules k := by
  obtain ⟨s, hs, hk⟩ := h
  refine final_of_state? (congrArg Control.state? hk) fun r hr hr' hsource => ?_
  exact hfree r hr hr' (hsource ▸ hs)

theorem isStuck_of_reads (h : Reads rules k w (some l)) (hk : k.isStuck = false) :
    l.isStuck = false := by
  generalize hp : some l = p at h
  induction h with
  | nil k =>
    cases hp
    exact hk
  | stuck => cases hp
  | cons _ hnext _ ih => exact ih (isStuck_of_next? hnext).2 hp

end PushdownConfig

variable [Ordered S] [Ordered C]

namespace Npda

variable {m : Npda S C}

theorem exists_acceptedBy_iff (m : Npda S C) {ks : SortedSet (PushdownConfig S C)} :
    (∃ k ∈ ks, k.AcceptedBy m.accept) ↔
      (ks.toList.filterMap (·.control.state?)).any (· ∈ m.accept) = true := by
  rw [any_accept_iff]
  constructor
  · rintro ⟨⟨_, stack⟩, hk, s, hs, rfl⟩
    exact ⟨s, hs, stack, hk⟩
  · rintro ⟨s, hs, stack, hk⟩
    exact ⟨_, hk, s, hs, rfl⟩

theorem read?_of_endsAt (hrules : conflict? m.rules = none) {n : Nat} (hend : EndsAt m.rules n k l)
    (hn : n < bound) (a : C) :
    m.read? bound {k} a = some (.ofOption (next? m.rules l (some a))) := by
  obtain ⟨ks, hks, hmem⟩ := hend.closure?_singleton hrules
  rw [read?_eq_some (hks bound hn), hend.advance_eq hrules hmem]

theorem run?_of_reads (hrules : conflict? m.rules = none) (hcycle : freeCycle? m.rules = none)
    (hbound : (freeSources m.rules).size < bound) (h : Reads m.rules k w p) :
    m.run? bound {k} w = some (.ofOption p) := by
  induction h with
  | nil k => rfl
  | stuck w hend hnone =>
    rw [run?_cons, read?_of_endsAt hrules hend ((hend.1.length_le hcycle).trans_lt hbound), hnone]
    exact feed_of_stuck rfl w
  | cons hend hnext _ ih =>
    rw [run?_cons, read?_of_endsAt hrules hend ((hend.1.length_le hcycle).trans_lt hbound), hnext]
    exact ih

end Npda

namespace Dpda

variable {m : Dpda S C}

theorem read?_of_endsAt (hcycle : freeCycle? m.rules = none) {n : Nat} (hend : EndsAt m.rules n k l)
    (hbound : (freeSources m.rules).size ≤ bound) (a : C) :
    m.read? bound k a = some ((next? m.rules l (some a)).getD l.jam) :=
  read?_of_settled? (hend.settle?_eq hcycle hbound) a

theorem run?_of_reads (hcycle : freeCycle? m.rules = none) (h : Reads m.rules k w p) :
    ∃ q, (∀ bound, (freeSources m.rules).size ≤ bound → m.run? bound k w = some q) ∧
      (p = some q ∨ p = none ∧ q.isStuck = true) := by
  induction h with
  | nil k => exact ⟨k, fun bound _ => rfl, .inl rfl⟩
  | @stuck n k l a w hend hnone =>
    refine ⟨l.jam, fun bound hbound => ?_, .inr ⟨rfl, rfl⟩⟩
    rw [run?_cons, read?_of_endsAt hcycle hend hbound, hnone]
    exact run?_of_isStuck rfl w
  | cons hend hnext _ ih =>
    obtain ⟨q, hq, hp⟩ := ih
    refine ⟨q, fun bound hbound => ?_, hp⟩
    rw [run?_cons, read?_of_endsAt hcycle hend hbound, hnext]
    exact hq bound hbound

theorem toNpda_accepts? (m : Dpda S C) (bound : Nat) (w : List C) :
    m.toNpda.accepts? bound w =
      (m.toNpda.run? bound {m.startConfig} w).bind (m.toNpda.accepting? bound) := rfl

structure Agreement (m : Dpda S C) (bound : Nat) (w : List C) (q z : PushdownConfig S C)
    (raw ks : SortedSet (PushdownConfig S C)) (b b' : Bool) : Prop where
  run : m.run? bound m.startConfig w = some q
  settled : m.settled? bound q = some z
  accepts : m.accepts? bound w = some b
  npda_run : m.toNpda.run? bound {m.startConfig} w = some raw
  closed : m.toNpda.closed? bound raw = some ks
  npda_accepts : m.toNpda.accepts? bound w = some b'
  stuck : q.isStuck = raw.isEmpty
  empty_iff : q.isStuck = true ↔ ks = ∅
  final_iff : q.isStuck = false → z.isStuck = false ∧ ∀ k, k ∈ ks ∧ Final m.rules k ↔ k = z
  accepts_iff : b = true ↔
    ∃ k ∈ ks, k.AcceptedBy m.accept ∧ Final m.rules k
  accepts_eq : (∀ r ∈ m.rules, Rule.isFree r = true → Rule.source r ∉ m.accept) → b = b'

theorem agreement_of_stuck (hrun : m.run? bound m.startConfig w = some k) (hk : k.isStuck = true)
    (hset : m.toNpda.run? bound {m.startConfig} w = some ∅) :
    m.Agreement bound w k k ∅ ∅ false false where
  run := hrun
  settled := settled?_of_isStuck hk
  accepts := by
    rw [accepts?_of_run? hrun, accepting?_of_settled? (settled?_of_isStuck hk), state?_of_isStuck hk]
    rfl
  npda_run := hset
  closed := Npda.closed?_empty bound
  npda_accepts := by
    rw [toNpda_accepts?, hset]
    exact Npda.accepting?_eq (Npda.closed?_empty bound)
  stuck := hk
  empty_iff := by simp [hk]
  final_iff := by simp [hk]
  accepts_iff := by simp
  accepts_eq := by simp

theorem agreement_of_active (hrules : conflict? m.rules = none) (hcycle : freeCycle? m.rules = none)
    (hbound : (freeSources m.rules).size < bound) (hrun : m.run? bound m.startConfig w = some k)
    (hk : k.isStuck = false) (hset : m.toNpda.run? bound {m.startConfig} w = some {k}) {n : Nat}
    (hend : EndsAt m.rules n k l) {ks : SortedSet (PushdownConfig S C)}
    (hks : m.toNpda.closed? bound {k} = some ks)
    (hmem : ∀ x, x ∈ ks ↔ Leads (successors m.rules none) k x) :
    m.Agreement bound w k l {k} ks (l.control.state?.any (· ∈ m.accept))
      ((ks.toList.filterMap (·.control.state?)).any (· ∈ m.accept)) := by
  have hsettled : m.settled? bound k = some l := hend.settle?_eq hcycle hbound.le
  have hne : ks ≠ ∅ := fun h => not_mem_empty l (h ▸ (hmem l).2 hend.1.leads)
  exact {
    run := hrun
    settled := hsettled
    accepts := (accepts?_of_run? hrun).trans (accepting?_of_settled? hsettled)
    npda_run := hset
    closed := hks
    npda_accepts := by
      rw [toNpda_accepts?, hset]
      exact Npda.accepting?_eq hks
    stuck := hk
    empty_iff := by simp [hk, hne]
    final_iff := fun _ => ⟨(isStuck_of_freeRun hend.1).trans hk,
      fun x => by rw [hmem, hend.final_iff hrules]⟩
    accepts_iff := by rw [hend.exists_final_iff hrules hmem, acceptedBy_iff]
    accepts_eq := by
      intro hfree
      have hfinal (x : PushdownConfig S C) (hx : x.AcceptedBy m.accept) : Final m.rules x :=
        final_of_acceptedBy hfree hx
      rw [Bool.eq_iff_iff, ← acceptedBy_iff, ← hend.exists_iff hrules hmem hfinal]
      exact m.toNpda.exists_acceptedBy_iff }

theorem exists_agreement (hrules : conflict? m.rules = none) (hcycle : freeCycle? m.rules = none)
    (w : List C) : ∃ q z raw ks b b', ∀ bound, (freeSources m.rules).size < bound →
      m.Agreement bound w q z raw ks b b' := by
  obtain ⟨p, hp⟩ := exists_reads hcycle m.startConfig w
  obtain ⟨q, hrun, hq⟩ := run?_of_reads hcycle hp
  have hset (bound : Nat) (hbound : (freeSources m.rules).size < bound) :
      m.toNpda.run? bound {m.startConfig} w = some (.ofOption p) :=
    Npda.run?_of_reads hrules hcycle hbound hp
  rcases hq with rfl | ⟨rfl, hstuck⟩
  · obtain ⟨n, hn, z, hend⟩ := exists_endsAt hcycle q
    obtain ⟨ks, hks, hmem⟩ := hend.closure?_singleton hrules
    have hactive : q.isStuck = false := isStuck_of_reads hp rfl
    refine ⟨q, z, {q}, ks, z.control.state?.any (· ∈ m.accept),
      (ks.toList.filterMap (·.control.state?)).any (· ∈ m.accept), fun bound hbound => ?_⟩
    exact agreement_of_active hrules hcycle hbound (hrun bound hbound.le) hactive (hset bound hbound)
      hend (hks bound (hn.trans_lt hbound)) hmem
  · refine ⟨q, q, ∅, ∅, false, false, fun bound hbound => ?_⟩
    exact agreement_of_stuck (hrun bound hbound.le) hstuck (hset bound hbound)

end Dpda

end TableMachines
