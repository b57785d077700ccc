import TableMachines.Catalog.Tables
import TableMachines.Proofs.Finite.Agreement
import TableMachines.Proofs.Finite.Reading
import TableMachines.Proofs.Pushdown.Agreement

namespace TableMachines

open SortedSet Table

section

variable {R S C K : Type} [Ordered C] [Rule R S C K] {rules : Table R} {k l : K} {w : List C}

theorem Table.Reads.spells (h : Reads rules k w (some l)) : Spells rules k w l := by
  generalize hp : some l = p at h
  induction h with
  | nil k =>
    cases hp
    exact .refl _
  | stuck => cases hp
  | cons hend hnext _ ih =>
    exact .of_leads hend.1.leads (.read (mem_successors_of_next? hnext) (ih hp))

end

variable {S C : Type} [Ordered S] [Ordered C]

namespace Dfa

variable {m : Dfa S C} {s t : S} {q : Control S} {w : List C} {a : C}

theorem exists_endsAt_of_read? (h : m.read? (.active s) a = some q) :
    ∃ n z, EndsAt m.rules n s z ∧ q = .ofState? (next? m.rules z (some a)) := by
  obtain ⟨p, hp, -⟩ := Option.bind_eq_some_iff.1 h
  obtain ⟨z, hz, rfl⟩ := Option.map_eq_some_iff.1 hp
  obtain ⟨n, _, hend⟩ := settle?_eq_some_iff.1 hz
  refine ⟨n, z, hend, ?_⟩
  rw [read?_of_settled? hp] at h
  exact (Option.some.inj h).symm

theorem reads_of_run? (h : m.run? (.active s) w = some q) : Reads m.rules s w q.state? := by
  induction w generalizing s with
  | nil =>
    cases h
    exact .nil _
  | cons a w ih =>
    rw [run?_cons] at h
    obtain ⟨p, hp, h⟩ := Option.bind_eq_some_iff.1 h
    obtain ⟨n, z, hend, rfl⟩ := exists_endsAt_of_read? hp
    cases hl : next? m.rules z (some a) with
    | none =>
      rw [hl] at h
      cases (run?_stuck w).symm.trans h
      exact .stuck w hend hl
    | some l =>
      rw [hl] at h
      exact .cons hend hl (ih h)

theorem spells_of_settled? (hrun : m.run? (.active s) w = some q)
    (ht : m.settled? q = some (.active t)) : Spells m.rules s w t := by
  cases q with
  | active u =>
    obtain ⟨n, hend⟩ := settled?_eq_some_iff.1 ht
    exact (reads_of_run? hrun).spells.append_leads hend.1.leads
  | stuck => cases ht

theorem exists_settled?_of_accepts? (h : m.accepts? w = some true) :
    ∃ q t, m.run? (.active m.start) w = some q ∧ m.settled? q = some (.active t) ∧ t ∈ m.accept := by
  obtain ⟨q, hq, h⟩ := Option.bind_eq_some_iff.1 h
  obtain ⟨z, hz, h⟩ := Option.bind_eq_some_iff.1 h
  cases z with
  | active t => exact ⟨q, t, hq, hz, of_decide_eq_true (Option.some.inj h)⟩
  | stuck => cases h

end Dfa

namespace Dpda

open PushdownConfig

variable {m : Dpda S C} {bound : Nat} {k l q : PushdownConfig S C} {w : List C} {a : C}

theorem exists_endsAt_of_read? (h : m.read? bound k a = some q) :
    ∃ n z, EndsAt m.rules n k z ∧ q = (next? m.rules z (some a)).getD z.jam := by
  obtain ⟨z, hz, -⟩ := Option.bind_eq_some_iff.1 h
  obtain ⟨n, _, hend⟩ := settle?_eq_some_iff.1 hz
  refine ⟨n, z, hend, ?_⟩
  rw [read?_of_settled? hz] at h
  exact (Option.some.inj h).symm

theorem reads_of_run? (h : m.run? bound k w = some q) (hq : q.isStuck = false) :
    Reads m.rules k w (some q) := by
  induction w generalizing k with
  | nil =>
    cases h
    exact .nil _
  | cons a w ih =>
    rw [run?_cons] at h
    obtain ⟨p, hp, h⟩ := Option.bind_eq_some_iff.1 h
    obtain ⟨n, z, hend, rfl⟩ := exists_endsAt_of_read? hp
    cases hl : next? m.rules z (some a) with
    | none =>
      -- a jammed configuration would still be stuck after the rest of the word
      rw [hl] at h
      cases (run?_of_isStuck rfl w).symm.trans h
      cases hq
    | some l =>
      rw [hl] at h
      exact .cons hend hl (ih h)

theorem spells_of_settled? (hrun : m.run? bound k w = some q) (hq : q.isStuck = false)
    (hl : m.settled? bound q = some l) : Spells m.rules k w l := by
  obtain ⟨n, _, hend⟩ := settle?_eq_some_iff.1 hl
  exact (reads_of_run? hrun hq).spells.append_leads hend.1.leads

theorem exists_settled?_of_accepts? (h : m.accepts? bound w = some true) :
    ∃ q l, m.run? bound m.startConfig w = some q ∧ q.isStuck = false ∧
      m.settled? bound q = some l ∧ l.AcceptedBy m.accept := by
  obtain ⟨q, hq, h⟩ := Option.bind_eq_some_iff.1 h
  obtain ⟨⟨control, stack⟩, hz, h⟩ := Option.bind_eq_some_iff.1 h
  cases control with
  | active s =>
    obtain ⟨n, _, hrun, _⟩ := settle?_eq_some_iff.1 hz
    refine ⟨q, _, hq, (isStuck_of_freeRun hrun).symm, hz, s, ?_, rfl⟩
    exact of_decide_eq_true (Option.some.inj h)
  | stuck => cases h

end Dpda

theorem Npda.exists_closed?_of_accepts? {m : Npda S C} {bound : Nat} {w : List C} {b : Bool}
    (h : m.accepts? bound w = some b) :
    ∃ p r, m.run? bound {m.startConfig} w = some p ∧ m.closed? bound p = some r ∧
      (b = true ↔ ∃ k ∈ r, k.AcceptedBy m.accept) := by
  obtain ⟨p, hp, h⟩ := Option.bind_eq_some_iff.1 h
  obtain ⟨r, hr, h⟩ := Option.bind_eq_some_iff.1 h
  cases h
  exact ⟨p, r, hp, hr, m.exists_acceptedBy_iff.symm⟩

theorem firstMatch_within_allMatches :
    (∀ (m : Dfa S C) (s : S) (w : List C) (q z : Control S),
      m.run? (.active s) w = some q → q.isStuck = false → m.settled? q = some z →
        ∃ t ∈ m.toNfa.closed (m.toNfa.run {s} w), z = .active t) ∧
    (∀ (m : Dfa S C) (w : List C), m.accepts? w = some true → m.toNfa.accepts w = true) ∧
    (∀ (m : Dpda S C) (n n' : Nat) (k : PushdownConfig S C) (w : List C) (q z : PushdownConfig S C)
      (p r : SortedSet (PushdownConfig S C)),
      m.run? n k w = some q → q.isStuck = false → m.settled? n q = some z →
        m.toNpda.run? n' {k} w = some p → m.toNpda.closed? n' p = some r → z ∈ r) ∧
    ∀ (m : Dpda S C) (n n' : Nat) (w : List C), m.accepts? n w = some true →
      m.toNpda.accepts? n' w ≠ none → m.toNpda.accepts? n' w = some true := by
  refine ⟨?_, ?_, ?_, ?_⟩
  · intro m s w q z hrun hq hz
    cases q with
    | active u =>
      obtain ⟨t, _, rfl⟩ := Option.map_eq_some_iff.1 hz
      have hspells := Dfa.spells_of_settled? hrun hz
      exact ⟨t, Nfa.mem_closed_run.2 ⟨s, mem_singleton.2 rfl, hspells⟩, rfl⟩
    | stuck => cases hq
  · intro m w haccepts
    obtain ⟨q, t, hrun, ht, haccept⟩ := Dfa.exists_settled?_of_accepts? haccepts
    exact Nfa.accepts_iff.2 ⟨t, haccept, Dfa.spells_of_settled? hrun ht⟩
  · intro m n n' k w q z p r hrun hq hz hp hr
    have hspells := Dpda.spells_of_settled? hrun hq hz
    exact (Npda.mem_closed?_run? hp hr).2 ⟨k, mem_singleton.2 rfl, hspells⟩
  · intro m n n' w haccepts hends
    obtain ⟨b, hb⟩ := Option.ne_none_iff_exists'.1 hends
    obtain ⟨q, z, hrun, hq, hz, haccept⟩ := Dpda.exists_settled?_of_accepts? haccepts
    obtain ⟨p, r, hp, hr, hiff⟩ := Npda.exists_closed?_of_accepts? hb
    have hspells := Dpda.spells_of_settled? hrun hq hz
    have hmem : z ∈ r := (Npda.mem_closed?_run? hp hr).2 ⟨_, mem_singleton.2 rfl, hspells⟩
    rw [hb, hiff.2 ⟨z, hmem, haccept⟩]

theorem firstMatch_within_allMatches_overlap :
    let m : Dfa UInt32 Char := ⟨1, {1}, Catalog.finite
      [(1, some 'a', 2), (1, some 'a', 3), (2, none, 3), (2, some 'b', 2), (3, some 'b', 1)]⟩
    let m' : Dpda UInt32 Char := ⟨1, '$', {1}, Catalog.pushdown
      [(1, none, 2, '$', ['$']), (1, some 'a', 3, '$', []), (2, some 'a', 1, '$', ['a', '$']),
        (2, some 'a', 3, '$', ['$'])]⟩
    let k : PushdownConfig UInt32 Char := ⟨.active 1, ⟨['a', '$']⟩⟩
    let r : SortedSet (PushdownConfig UInt32 Char) :=
      .ofList [k, ⟨.active 3, ⟨[]⟩⟩, ⟨.active 3, ⟨['$']⟩⟩]
    (∃ t ∈ m.toNfa.closed (m.toNfa.run {1} ['a', 'b']), Control.active 1 = .active t) ∧
    m.toNfa.accepts ['a', 'b'] = true ∧
    k ∈ r ∧
    m'.toNpda.accepts? 2 ['a'] = some true := by
  intro m m' k r
  obtain ⟨hdfa, haccepts, hdpda, haccepts'⟩ := firstMatch_within_allMatches (S := UInt32) (C := Char)
  refine ⟨?_, ?_, ?_, ?_⟩
  · exact hdfa m 1 ['a', 'b'] (.active 1) (.active 1) (by decide) rfl (by decide)
  · exact haccepts m ['a', 'b'] (by decide)
  · exact hdpda m' 1 2 m'.startConfig ['a'] k k r r (by decide) rfl (by decide) (by decide) (by decide)
  · exact haccepts' m' 1 2 ['a'] (by decide) (by decide)

end TableMachines
