import TableMachines.Proofs.Analysis.Audit
import TableMachines.Proofs.Table.AllMatches
import TableMachines.Proofs.Table.Settling

namespace TableMachines

def SortedSet.ofOption {α : Type} [Ordered α] : Option α → SortedSet α
  | some a => {a}
  | none => ∅

namespace Table

open SortedSet

variable {R S C K : Type} [Rule R S C K] {rules : Table R} {n : Nat} {k l x z : K} {a : C}
  {w : List C} {p : Option K}

theorem final_of_state? [LawfulRule R S C K] {s : S}
    (hs : LawfulRule.state? R k = some s) (h : ∀ r ∈ rules, Rule.isFree r = true → Rule.source r ≠ s) :
    Final rules k := by
  intro r hr happ
  refine h r hr ?_ (Option.some.inj ((LawfulRule.state?_of_fits happ.2).symm.trans hs))
  rw [Rule.isFree, happ.1]
  rfl

variable [Ordered C]

/-- Reading a word by first match: where it ends, absent if some symbol finds no rule. -/
inductive Reads (rules : Table R) : K → List C → Option K → Prop
  | nil (k : K) : Reads rules k [] (some k)
  | stuck {n : Nat} {k z : K} {a : C} (w : List C) :
      EndsAt rules n k z → next? rules z (some a) = none → Reads rules k (a :: w) none
  | cons {n : Nat} {k z l : K} {a : C} {w : List C} {p : Option K} :
      EndsAt rules n k z → next? rules z (some a) = some l → Reads rules l w p →
      Reads rules k (a :: w) p

theorem mem_successors_of_next? {b : Option C} (h : next? rules k b = some l) :
    l ∈ successors rules b k :=
  mem_successors.2 (exists_rule_of_next? h)

theorem FreeRun.leads (h : FreeRun rules n k l) : Leads (successors rules none) k l := by
  induction h with
  | refl => exact .refl
  | head hl _ ih => exact .head (mem_successors_of_next? hl) ih

theorem Final.eq_of_leads (hfinal : Final rules k) (h : Leads (successors rules none) k x) : x = k := by
  rcases h.cases_head with heq | ⟨l, hl, _⟩
  · exact heq.symm
  · obtain ⟨r, hr, happ, _⟩ := mem_successors.1 hl
    exact absurd happ (hfinal r hr)

variable [LawfulRule R S C K]

theorem exists_reads [Ordered S] (hcycle : freeCycle? rules = none) (k : K) (w : List C) :
    ∃ p, Reads rules k w p := by
  induction w generalizing k with
  | nil => exact ⟨some k, .nil k⟩
  | cons a w ih =>
    obtain ⟨n, _, z, hend⟩ := exists_endsAt hcycle k
    cases hl : next? rules z (some a) with
    | none => exact ⟨none, .stuck w hend hl⟩
    | some l =>
      obtain ⟨p, hp⟩ := ih l
      exact ⟨p, .cons hend hl hp⟩

variable (hrules : conflict? rules = none)
include hrules

theorem mem_successors_iff_next? {b : Option C} : l ∈ successors rules b k ↔ next? rules k b = some l := by
  refine ⟨fun h => ?_, mem_successors_of_next?⟩
  obtain ⟨r, hr, happ, rfl⟩ := mem_successors.1 h
  refine next?_eq_some ⟨r, hr, happ⟩ fun t ht happt => ?_
  have hc : Collide (Rule.trigger t) (Rule.trigger r) :=
    collide_iff.2 (.inr (.inr (happt.1.trans happ.1.symm)))
  rw [eq_of_fits hrules ht hr happt.2 happ.2 hc]

theorem next?_eq_none_of_free (h : next? rules k none = some l) (a : C) :
    next? rules k (some a) = none := by
  refine next?_eq_none_iff.2 fun t ht happt => ?_
  obtain ⟨r, hr, happ, _⟩ := exists_rule_of_next? h
  have heq := eq_of_fits hrules hr ht happ.2 happt.2 (collide_iff.2 (.inl happ.1))
  subst heq
  cases happ.1.symm.trans happt.1

theorem final_of_next? (h : next? rules k (some a) = some l) : Final rules k := by
  rw [final_iff, Option.eq_none_iff_forall_ne_some]
  intro l' hl'
  rw [next?_eq_none_of_free hrules hl' a] at h
  cases h

theorem FreeRun.leads_end (hrun : FreeRun rules n k z) (hfinal : Final rules z)
    (h : Leads (successors rules none) k x) : Leads (successors rules none) x z := by
  induction hrun with
  | refl k => rw [hfinal.eq_of_leads h]
  | @head n k l z hl hrun ih =>
    rcases h.cases_head with rfl | ⟨l', hl', h⟩
    · exact .head (mem_successors_of_next? hl) hrun.leads
    · cases hl.symm.trans ((mem_successors_iff_next? hrules).1 hl')
      exact ih hfinal h

theorem EndsAt.final_iff (hend : EndsAt rules n k z) :
    Leads (successors rules none) k x ∧ Final rules x ↔ x = z := by
  constructor
  · rintro ⟨h, hfinal⟩
    exact (hfinal.eq_of_leads (hend.1.leads_end hrules hend.2 h)).symm
  · rintro rfl
    exact ⟨hend.1.leads, hend.2⟩

theorem EndsAt.exists_room (hend : EndsAt rules n k z) :
    ∃ room : List K, room.length = n ∧
      ∀ x, Leads (successors rules none) k x → x = k ∨ x ∈ room := by
  obtain ⟨hrun, hfinal⟩ := hend
  induction hrun with
  | refl k => exact ⟨[], rfl, fun x hx => .inl (hfinal.eq_of_leads hx)⟩
  | @head n k l z hl _ ih =>
    obtain ⟨room, hlen, hroom⟩ := ih hfinal
    refine ⟨l :: room, congrArg (· + 1) hlen, fun x hx => ?_⟩
    rcases hx.cases_head with heq | ⟨l', hl', hx⟩
    · exact .inl heq.symm
    · cases hl.symm.trans ((mem_successors_iff_next? hrules).1 hl')
      exact .inr (List.mem_cons.2 (hroom x hx))

variable [Ordered K] {ks : SortedSet K}

theorem EndsAt.closure?_singleton (hend : EndsAt rules n k z) :
    ∃ ks, (∀ bound, n < bound → closure? rules bound {k} = some ks) ∧
      ∀ x, x ∈ ks ↔ Leads (successors rules none) k x := by
  obtain ⟨room, hlen, hroom⟩ := hend.exists_room hrules
  have hclosure (bound : Nat) (hn : n < bound) :
      closure? rules bound {k} = some (closure rules bound {k}) := by
    refine saturate?_eq_saturate room (fun y hy x hx => ?_) (hlen ▸ hn)
    rw [mem_singleton] at hy ⊢
    rw [hy] at hx
    exact hroom x hx
  have hmem (bound : Nat) (hn : n < bound) (x : K) :
      x ∈ closure rules bound {k} ↔ Leads (successors rules none) k x := by
    simp only [mem_saturate? (hclosure bound hn), mem_singleton, exists_eq_left]
  refine ⟨closure rules (n + 1) {k}, fun bound hn => ?_, hmem (n + 1) (Nat.lt_succ_self n)⟩
  rw [hclosure bound hn]
  congr 1
  ext x
  rw [hmem bound hn, hmem (n + 1) (Nat.lt_succ_self n)]

theorem EndsAt.advance_eq (hend : EndsAt rules n k z)
    (hks : ∀ x, x ∈ ks ↔ Leads (successors rules none) k x) (a : C) :
    advance rules (some a) ks = .ofOption (next? rules z (some a)) := by
  have hmem (y : K) : y ∈ advance rules (some a) ks ↔ next? rules z (some a) = some y := by
    rw [advance, mem_expand]
    constructor
    · rintro ⟨x, hx, hy⟩
      have hy := (mem_successors_iff_next? hrules).1 hy
      rw [← (hend.final_iff hrules).1 ⟨(hks x).1 hx, final_of_next? hrules hy⟩]
      exact hy
    · intro hy
      exact ⟨z, (hks z).2 hend.1.leads, mem_successors_of_next? hy⟩
  ext y
  rw [hmem]
  cases next? rules z (some a) with
  | none => simp [ofOption]
  | some l => simp [ofOption, mem_singleton, eq_comm]

theorem EndsAt.exists_final_iff (hend : EndsAt rules n k z)
    (hks : ∀ x, x ∈ ks ↔ Leads (successors rules none) k x) (good : K → Prop) :
    (∃ x ∈ ks, good x ∧ Final rules x) ↔ good z := by
  constructor
  · rintro ⟨x, hx, hgood, hfinal⟩
    rw [← (hend.final_iff hrules).1 ⟨(hks x).1 hx, hfinal⟩]
    exact hgood
  · intro hgood
    exact ⟨z, (hks z).2 hend.1.leads, hgood, hend.2⟩

theorem EndsAt.exists_iff (hend : EndsAt rules n k z)
    (hks : ∀ x, x ∈ ks ↔ Leads (successors rules none) k x) {good : K → Prop}
    (hgood : ∀ x, good x → Final rules x) : (∃ x ∈ ks, good x) ↔ good z := by
  rw [← hend.exists_final_iff hrules hks good]
  constructor
  · rintro ⟨x, hx, h⟩
    exact ⟨x, hx, h, hgood x h⟩
  · rintro ⟨x, hx, h, _⟩
    exact ⟨x, hx, h⟩

end Table

end TableMachines
