import Mathlib.Data.List.ProdSigma
import Mathlib.Data.Set.Finite.Lattice
import TableMachines.Proofs.Analysis.Audit
import TableMachines.Proofs.Pushdown.Closed
import TableMachines.Proofs.Table.Acyclic

namespace TableMachines

open SortedSet Table

variable {S C : Type}

def PushdownRule.NeverGrows (rules : Table (PushdownRule S C)) : Prop :=
  ∀ r ∈ rules, r.trigger = none → r.push.length ≤ 1

namespace PushdownConfig

open PushdownRule

/-- What is left of a configuration after such moves: some state, and on some end of its stack at
most what one rule pushes. -/
structure Lowered (rules : Table (PushdownRule S C)) (k l : PushdownConfig S C) : Prop where
  control : l.control ∈ k.control :: rules.map fun r => .active r.target
  stack : ∃ top ∈ [] :: rules.map PushdownRule.push, ∃ rest, rest <:+ k.stack.symbols ∧
    top.length ≤ 1 ∧ l.stack.symbols = top ++ rest

variable {rules : Table (PushdownRule S C)} {k l l' : PushdownConfig S C}

theorem Lowered.refl (rules : Table (PushdownRule S C)) (k : PushdownConfig S C) :
    Lowered rules k k where
  control := List.mem_cons_self
  stack := ⟨[], List.mem_cons_self, k.stack.symbols, List.suffix_rfl, by simp, rfl⟩

theorem finite_lowered (rules : Table (PushdownRule S C)) (k : PushdownConfig S C) :
    {l | Lowered rules k l}.Finite := by
  let controls := k.control :: rules.map fun r => Control.active r.target
  let tops := [] :: rules.map PushdownRule.push
  let left := (controls ×ˢ tops ×ˢ k.stack.symbols.tails).map fun x =>
    (⟨x.1, ⟨x.2.1 ++ x.2.2⟩⟩ : PushdownConfig S C)
  refine left.finite_toSet.subset ?_
  rintro ⟨control, ⟨symbols⟩⟩ ⟨hcontrol, top, htop, rest, hrest, _, rfl⟩
  refine List.mem_map.2 ⟨(control, top, rest), ?_, rfl⟩
  simp only [List.mem_product, List.mem_tails]
  exact ⟨hcontrol, htop, hrest⟩

variable [Ordered S] [Ordered C]

theorem Lowered.step (hrules : NeverGrows rules) (h : Lowered rules k l)
    (hl : l' ∈ successors rules none l) : Lowered rules k l' := by
  obtain ⟨r, hr, ⟨htrigger, _, _⟩, rfl⟩ := mem_successors.1 hl
  obtain ⟨top, _, rest, hrest, hlength, hsymbols⟩ := h.stack
  -- what the last move pushed is a single symbol, which this one pops
  have htail : l.stack.symbols.tail <:+ k.stack.symbols := by
    rw [hsymbols]
    cases top with
    | nil => exact (List.tail_suffix rest).trans hrest
    | cons b top =>
      have htop : top = [] := by simpa using hlength
      rw [htop]
      exact hrest
  constructor
  · exact List.mem_cons_of_mem _ (List.mem_map_of_mem hr)
  · refine ⟨r.push, List.mem_cons_of_mem _ (List.mem_map_of_mem hr), _, htail, ?_, ?_⟩
    · exact hrules r hr htrigger
    · exact Stack.symbols_pushAll r.push l.stack.pop

theorem finite_freeReach (hrules : NeverGrows rules) (ks : SortedSet (PushdownConfig S C)) :
    (freeReach rules ks).Finite := by
  have hfinite := Set.Finite.biUnion ks.toList.finite_toSet fun k _ => finite_lowered rules k
  refine hfinite.subset ?_
  rintro l ⟨k, hk, hkl⟩
  refine Set.mem_biUnion hk ?_
  clear hk
  induction hkl with
  | refl => exact .refl rules k
  | tail _ hstep ih => exact Lowered.step hrules ih hstep

end PushdownConfig

namespace Npda

open PushdownRule

variable [Ordered S] [Ordered C] {m : Npda S C}

structure Answers (m : Npda S C) : Prop where
  closed : ∀ p, ∃ r n, (∀ bound, n ≤ bound → m.closed? bound p = some r) ∧
    ∀ k, k ∈ r ↔ ∃ k₀ ∈ p, Spells m.rules k₀ [] k
  read : ∀ p a, ∃ q n, ∀ bound, n ≤ bound → m.read? bound p a = some q
  run : ∀ p w, ∃ q n, ∀ bound, n ≤ bound → m.run? bound p w = some q
  accepting : ∀ p, ∃ b n, ∀ bound, n ≤ bound → m.accepting? bound p = some b
  accepts : ∀ w, ∃ b n, (∀ bound, n ≤ bound → m.accepts? bound w = some b) ∧
    (b = true ↔ ∃ s ∈ m.accept, ∃ stack, Spells m.rules m.startConfig w ⟨.active s, stack⟩)

theorem exists_read?_of_closesTo (h : ∀ p, ∃ r, ClosesTo m.rules p r)
    (p : SortedSet (PushdownConfig S C)) (a : C) :
    ∃ q n, ∀ bound, n ≤ bound → m.read? bound p a = some q := by
  obtain ⟨r, n, hr⟩ := h p
  exact ⟨_, n, fun bound hn => read?_eq_some (hr bound hn)⟩

theorem exists_run?_of_closesTo (h : ∀ p, ∃ r, ClosesTo m.rules p r)
    (p : SortedSet (PushdownConfig S C)) (w : List C) :
    ∃ q n, ∀ bound, n ≤ bound → m.run? bound p w = some q := by
  induction w generalizing p with
  | nil => exact ⟨p, 0, fun _ _ => rfl⟩
  | cons a w ih =>
    obtain ⟨p', n₁, hp'⟩ := exists_read?_of_closesTo h p a
    obtain ⟨q, n₂, hq⟩ := ih p'
    refine ⟨q, max n₁ n₂, fun bound hn => ?_⟩
    rw [run?_cons, hp' bound (by omega)]
    exact hq bound (by omega)

theorem exists_accepting?_of_closesTo (h : ∀ p, ∃ r, ClosesTo m.rules p r)
    (p : SortedSet (PushdownConfig S C)) :
    ∃ b n, ∀ bound, n ≤ bound → m.accepting? bound p = some b := by
  obtain ⟨r, n, hr⟩ := h p
  exact ⟨_, n, fun bound hn => accepting?_eq (hr bound hn)⟩

theorem answers_of_closesTo (h : ∀ p, ∃ r, ClosesTo m.rules p r) : m.Answers where
  closed p := by
    obtain ⟨r, n, hr⟩ := h p
    exact ⟨r, n, hr, fun _ => mem_closed? (hr n le_rfl)⟩
  read := exists_read?_of_closesTo h
  run := exists_run?_of_closesTo h
  accepting := exists_accepting?_of_closesTo h
  accepts w := by
    obtain ⟨q, n₁, hq⟩ := exists_run?_of_closesTo h {m.startConfig} w
    obtain ⟨r, n₂, hr⟩ := h q
    have hboth : ∀ bound, max n₁ n₂ ≤ bound →
        m.run? bound {m.startConfig} w = some q ∧ m.closed? bound q = some r := fun bound hn =>
      ⟨hq bound (by omega), hr bound (by omega)⟩
    obtain ⟨b, hb, haccepted⟩ := exists_accepts?_of_run? hboth
    exact ⟨b, _, hb, haccepted⟩

theorem answers_of_neverGrows_or_acyclic (m : Npda S C)
    (h : NeverGrows m.rules ∨ freeCycleProblem? m.rules = none) : m.Answers := by
  apply answers_of_closesTo
  intro p
  rcases h with hgrows | hcycle
  · exact exists_closesTo_iff.2 (PushdownConfig.finite_freeReach hgrows p)
  · exact exists_closesTo_of_freeCycle? (freeCycleProblem?_eq_none_iff.1 hcycle) p

theorem answers_of_neverGrows_or_acyclic_circle :
    let circle : Npda UInt32 Char := ⟨1, '$', {2}, Catalog.pushdown
      [(1, none, 2, '$', ['b']), (2, none, 1, 'b', ['$']), (1, some 'a', 1, '$', ['a', '$']),
        (2, none, 2, 'b', [])]⟩
    let grower : Npda UInt32 Char := ⟨1, '$', {3}, Catalog.pushdown
      [(1, none, 2, '$', ['b', 'b', '$']), (2, none, 3, 'b', ['b', 'b']), (3, some 'a', 1, 'b', [])]⟩
    freeCycleProblem? circle.rules = some (.freeCycle [1, 2]) ∧ circle.Answers ∧ grower.Answers := by
  intro circle grower
  refine ⟨by decide, ?_, ?_⟩
  · apply answers_of_neverGrows_or_acyclic circle
    left
    unfold NeverGrows
    decide
  · exact answers_of_neverGrows_or_acyclic grower (.inr (by decide))

end Npda

end TableMachines
