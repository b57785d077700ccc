import TableMachines.Catalog.Tables
import TableMachines.Proofs.Pushdown.Closed

namespace TableMachines

variable {S C : Type}

def PushdownConfig.ofPair (c : S × List C) : PushdownConfig S C :=
  ⟨.active c.1, ⟨c.2⟩⟩

theorem PushdownConfig.ofPair_injective :
    Function.Injective (ofPair : S × List C → PushdownConfig S C) := by
  rintro ⟨s, l⟩ ⟨t, l'⟩ h
  cases h
  rfl

namespace PushdownRule

open SortedSet Table PushdownConfig

inductive Move (rules : Table (PushdownRule S C)) :
    S × List C → Option C → S × List C → Prop
  | mk {r : PushdownRule S C} (rest : List C) :
      r ∈ rules → Move rules (r.source, r.pop :: rest) r.trigger (r.target, r.push ++ rest)

inductive Moves (rules : Table (PushdownRule S C)) :
    S × List C → List C → S × List C → Prop
  | refl (c : S × List C) : Moves rules c [] c
  | head {c d e : S × List C} {a : Option C} {w : List C} :
      Move rules c a d → Moves rules d w e → Moves rules c (a.toList ++ w) e

theorem move_cons_iff {rules : Table (PushdownRule S C)} {s : S} {b : C} {rest : List C}
    {a : Option C} {d : S × List C} : Move rules (s, b :: rest) a d ↔
      ∃ t push, ⟨s, a, t, b, push⟩ ∈ rules ∧ d = (t, push ++ rest) := by
  constructor
  · rintro ⟨rest, hr⟩
    exact ⟨_, _, hr, rfl⟩
  · rintro ⟨t, push, hr, rfl⟩
    exact .mk rest hr

variable [Ordered S] [Ordered C] {rules : Table (PushdownRule S C)}

theorem follow_ofPair (r : PushdownRule S C) (s : S) (b : C) (rest : List C) :
    Rule.follow r (ofPair (s, b :: rest)) = ofPair (r.target, r.push ++ rest) := by
  have hstack : (Stack.mk rest).pushAll r.push = ⟨r.push ++ rest⟩ :=
    congrArg Stack.mk (Stack.symbols_pushAll r.push ⟨rest⟩)
  exact congrArg (PushdownConfig.mk (.active r.target)) hstack

theorem mem_successors_ofPair {c : S × List C} {a : Option C} {k : PushdownConfig S C} :
    k ∈ successors rules a (ofPair c) ↔ ∃ d, Move rules c a d ∧ k = ofPair d := by
  obtain ⟨s, l⟩ := c
  rw [mem_successors]
  constructor
  · rintro ⟨r, hr, ⟨rfl, hs, htop⟩, rfl⟩
    cases hs
    cases l with
    | nil => cases htop
    | cons b rest =>
      cases htop
      exact ⟨_, .mk rest hr, follow_ofPair r _ _ rest⟩
  · rintro ⟨d, h, rfl⟩
    cases h with
    | @mk r rest hr => exact ⟨r, hr, ⟨rfl, rfl, rfl⟩, follow_ofPair r _ _ rest⟩

theorem not_mem_successors_stuck {stack : Stack C} {a : Option C} {k : PushdownConfig S C} :
    k ∉ successors rules a ⟨.stuck, stack⟩ := by
  intro h
  obtain ⟨r, _, ⟨_, hs, _⟩, _⟩ := mem_successors.1 h
  cases hs

theorem spells_ofPair_iff {c : S × List C} {w : List C} {k : PushdownConfig S C} :
    Spells rules (ofPair c) w k ↔ ∃ d, Moves rules c w d ∧ k = ofPair d := by
  constructor
  · intro h
    generalize hc : ofPair c = k₀ at h
    induction h generalizing c with
    | refl => exact ⟨c, .refl c, hc.symm⟩
    | free hk _ ih =>
      obtain ⟨d, hcd, hd⟩ := mem_successors_ofPair.1 (hc ▸ hk)
      obtain ⟨e, hde, he⟩ := ih hd.symm
      exact ⟨e, .head hcd hde, he⟩
    | read hk _ ih =>
      obtain ⟨d, hcd, hd⟩ := mem_successors_ofPair.1 (hc ▸ hk)
      obtain ⟨e, hde, he⟩ := ih hd.symm
      exact ⟨e, .head hcd hde, he⟩
  · rintro ⟨d, h, rfl⟩
    induction h with
    | refl c => exact .refl (ofPair c)
    | @head c d e a w hcd _ ih =>
      have hk : ofPair d ∈ successors rules a (ofPair c) := mem_successors_ofPair.2 ⟨d, hcd, rfl⟩
      cases a with
      | none => exact .free hk ih
      | some a => exact .read hk ih

theorem spells_stuck_iff {stack : Stack C} {w : List C} {k : PushdownConfig S C} :
    Spells rules ⟨.stuck, stack⟩ w k ↔ w = [] ∧ k = ⟨.stuck, stack⟩ := by
  constructor
  · intro h
    cases h with
    | refl => exact ⟨rfl, rfl⟩
    | free hk => exact absurd hk not_mem_successors_stuck
    | read hk => exact absurd hk not_mem_successors_stuck
  · rintro ⟨rfl, rfl⟩
    exact .refl _

theorem exists_spells_iff {p : SortedSet (PushdownConfig S C)} {w : List C} {k : PushdownConfig S C} :
    (∃ k₀ ∈ p, Spells rules k₀ w k) ↔
      (w = [] ∧ k ∈ p) ∨ ∃ c d, ofPair c ∈ p ∧ Moves rules c w d ∧ k = ofPair d := by
  constructor
  · rintro ⟨⟨s | _, stack⟩, hp, h⟩
    · obtain ⟨d, hd, hk⟩ := spells_ofPair_iff.1 (show Spells rules (ofPair (s, stack.symbols)) w k from h)
      exact .inr ⟨(s, stack.symbols), d, hp, hd, hk⟩
    · obtain ⟨hw, rfl⟩ := spells_stuck_iff.1 h
      exact .inl ⟨hw, hp⟩
  · rintro (⟨rfl, hp⟩ | ⟨c, d, hp, hd, rfl⟩)
    · exact ⟨k, hp, .refl k⟩
    · exact ⟨ofPair c, hp, spells_ofPair_iff.2 ⟨d, hd, rfl⟩⟩

theorem finite_spells {p : SortedSet (PushdownConfig S C)} {w : List C}
    (h : {d | ∃ c, ofPair c ∈ p ∧ Moves rules c w d}.Finite) :
    {k | ∃ k₀ ∈ p, Spells rules k₀ w k}.Finite := by
  refine (p.toList.finite_toSet.union (h.image ofPair)).subset fun k hk => ?_
  rcases exists_spells_iff.1 hk with ⟨_, hp⟩ | ⟨c, d, hp, hd, rfl⟩
  · exact .inl hp
  · exact .inr ⟨d, ⟨c, hp, hd⟩, rfl⟩

end PushdownRule

namespace Npda

open SortedSet Table PushdownRule PushdownConfig

variable [Ordered S] [Ordered C] {m : Npda S C} {p : SortedSet (PushdownConfig S C)} {w : List C}

theorem spells_startConfig_iff {k : PushdownConfig S C} :
    Spells m.rules m.startConfig w k ↔
      ∃ d, Moves m.rules (m.start, [m.bottom]) w d ∧ k = ofPair d :=
  spells_ofPair_iff (c := (m.start, [m.bottom]))

theorem exists_accept_spells_iff :
    (∃ s ∈ m.accept, ∃ stack, Spells m.rules m.startConfig w ⟨.active s, stack⟩) ↔
      ∃ s ∈ m.accept, ∃ l, Moves m.rules (m.start, [m.bottom]) w (s, l) := by
  constructor
  · rintro ⟨s, hs, stack, h⟩
    obtain ⟨⟨s, l⟩, hd, hsd⟩ := spells_startConfig_iff.1 h
    cases hsd
    exact ⟨s, hs, l, hd⟩
  · rintro ⟨s, hs, l, hd⟩
    exact ⟨s, hs, ⟨l⟩, spells_startConfig_iff.2 ⟨(s, l), hd, rfl⟩⟩

theorem finite_spells_startConfig (h : {d | Moves m.rules (m.start, [m.bottom]) w d}.Finite) :
    {k | Spells m.rules m.startConfig w k}.Finite := by
  refine (h.image ofPair).subset fun k hk => ?_
  obtain ⟨d, hd, rfl⟩ := spells_startConfig_iff.1 hk
  exact ⟨d, hd, rfl⟩

theorem finite_moves_of_isSome (bound : Nat)
    (h : ((m.run? bound p w).bind (m.closed? bound)).isSome = true) :
    {d | ∃ c, ofPair c ∈ p ∧ Moves m.rules c w d}.Finite := by
  obtain ⟨r, hr⟩ := Option.isSome_iff_exists.1 h
  obtain ⟨q, hq, hr⟩ := Option.bind_eq_some_iff.1 hr
  refine ((finite_of_closed? hq hr).preimage ofPair_injective.injOn).subset ?_
  rintro d ⟨c, hc, hd⟩
  exact exists_spells_iff.2 (.inr ⟨c, d, hc, hd, rfl⟩)

theorem reads_along_moves (m : Npda S C) (w : List C) :
    (∀ p : SortedSet (PushdownConfig S C),
      (∀ u, u <+: w → {d | ∃ c, ofPair c ∈ p ∧ Moves m.rules c u d}.Finite) →
      ∃ q r n, ∀ bound, n ≤ bound →
        m.run? bound p w = some q ∧ m.closed? bound q = some r ∧
          ∀ k, k ∈ r ↔
            (w = [] ∧ k ∈ p) ∨ ∃ c d, ofPair c ∈ p ∧ Moves m.rules c w d ∧ k = ofPair d) ∧
    ((∀ u, u <+: w → {d | Moves m.rules (m.start, [m.bottom]) u d}.Finite) →
      ∃ b n, (∀ bound, n ≤ bound → m.accepts? bound w = some b) ∧
        (b = true ↔ ∃ s ∈ m.accept, ∃ l, Moves m.rules (m.start, [m.bottom]) w (s, l))) := by
  constructor
  · intro p h
    obtain ⟨q, r, n, hn⟩ := exists_closed?_run? fun u hu => finite_spells (h u hu)
    refine ⟨q, r, n, fun bound hb => ?_⟩
    obtain ⟨hq, hr⟩ := hn bound hb
    refine ⟨hq, hr, fun k => ?_⟩
    rw [mem_closed?_run? hq hr, exists_spells_iff]
  · intro h
    obtain ⟨b, n, hb, hiff⟩ := exists_accepts? fun u hu => finite_spells_startConfig (h u hu)
    exact ⟨b, n, hb, hiff.trans exists_accept_spells_iff⟩

theorem reads_along_moves_even_palindrome :
    let m := Catalog.evenPalindrome
    let p : SortedSet (PushdownConfig UInt32 Char) := {m.startConfig, ⟨.stuck, ⟨['a']⟩⟩}
    (∃ q r n, ∀ bound, n ≤ bound →
      m.run? bound p ['a', 'a'] = some q ∧ m.closed? bound q = some r ∧
        ∀ k, k ∈ r ↔ (['a', 'a'] = [] ∧ k ∈ p) ∨
          ∃ c d, ofPair c ∈ p ∧ Moves m.rules c ['a', 'a'] d ∧ k = ofPair d) ∧
    ∃ b n, (∀ bound, n ≤ bound → m.accepts? bound ['a', 'a'] = some b) ∧
      (b = true ↔ ∃ s ∈ m.accept, ∃ l, Moves m.rules (m.start, [m.bottom]) ['a', 'a'] (s, l)) := by
  intro m p
  have hfin (u : List Char) (hu : u <+: ['a', 'a']) :
      {d | ∃ c, ofPair c ∈ p ∧ Moves m.rules c u d}.Finite := by
    have hu' : u = [] ∨ u = ['a'] ∨ u = ['a', 'a'] := by
      simpa using (List.mem_inits u ['a', 'a']).2 hu
    rcases hu' with rfl | rfl | rfl
    · exact finite_moves_of_isSome 3 (by decide)
    · exact finite_moves_of_isSome 3 (by decide)
    · exact finite_moves_of_isSome 3 (by decide)
  have hstart : ofPair (m.start, [m.bottom]) ∈ p := mem_insert.2 (.inl rfl)
  constructor
  · exact (reads_along_moves m ['a', 'a']).1 p hfin
  · exact (reads_along_moves m ['a', 'a']).2 fun u hu =>
      (hfin u hu).subset fun d hd => ⟨_, hstart, hd⟩

end Npda

end TableMachines
