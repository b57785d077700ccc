import TableMachines.Proofs.Analysis.Audit
import TableMachines.Proofs.Finite.Path
import TableMachines.Proofs.Rule
import TableMachines.Proofs.Table.FirstMatch

namespace TableMachines.Table

open Relation SortedSet

variable {R S C K : Type} [Rule R S C K] {rules : Table R} {s t start : S}

def Linked (rules : Table R) (s t : S) : Prop :=
  ∃ r ∈ rules, Rule.source r = s ∧ Rule.target r = t

def Within (rules : Table R) (start : S) (state : Option S) : Prop :=
  ∀ s, state = some s → ReflTransGen (Linked rules) start s

theorem leads_targets_iff [Ordered S] : Leads (targets rules) s t ↔ ReflTransGen (Linked rules) s t := by
  have hlinked : (fun s t => t ∈ targets rules s) = Linked rules := by
    funext s t
    exact propext mem_targets
  rw [Leads, hlinked]

theorem within_start (rules : Table R) (start : S) : Within rules start (some start) := by
  intro s hs
  cases hs
  exact .refl

theorem Within.ne_some {state : Option S} (h : Within rules start state)
    (ht : ¬ ReflTransGen (Linked rules) start t) : state ≠ some t :=
  fun hstate => ht (h t hstate)

variable [LawfulRule R S C K] {r : R} {k l : K}

theorem Within.follow (h : Within rules start (LawfulRule.state? R k)) (hr : r ∈ rules)
    (hfits : Rule.Fits r k) : Within rules start (LawfulRule.state? R (Rule.follow r k)) := by
  intro t ht
  rw [LawfulRule.state?_follow] at ht
  have hsource := h (Rule.source r) (LawfulRule.state?_of_fits hfits)
  exact hsource.tail ⟨r, hr, rfl, Option.some.inj ht⟩

variable [Ordered C] {n bound : Nat} {a : Option C} {w : List C}

theorem Within.next? (h : Within rules start (LawfulRule.state? R k))
    (hl : next? rules k a = some l) : Within rules start (LawfulRule.state? R l) := by
  obtain ⟨r, hr, happ, rfl⟩ := exists_rule_of_next? hl
  exact h.follow hr happ.2

theorem Within.freeRun (h : Within rules start (LawfulRule.state? R k)) (hrun : FreeRun rules n k l) :
    Within rules start (LawfulRule.state? R l) := by
  induction hrun with
  | refl => exact h
  | head hl _ ih => exact ih (h.next? hl)

theorem Within.settle? (h : Within rules start (LawfulRule.state? R k))
    (hl : settle? rules bound k = some l) : Within rules start (LawfulRule.state? R l) := by
  obtain ⟨n, _, hrun, _⟩ := settle?_eq_some_iff.1 hl
  exact h.freeRun hrun

theorem Within.successor (h : Within rules start (LawfulRule.state? R k))
    (hl : l ∈ successors rules a k) : Within rules start (LawfulRule.state? R l) := by
  obtain ⟨r, hr, happ, rfl⟩ := mem_successors.1 hl
  exact h.follow hr happ.2

theorem Within.spells (h : Within rules start (LawfulRule.state? R k)) (hl : Spells rules k w l) :
    Within rules start (LawfulRule.state? R l) := by
  induction hl with
  | refl => exact h
  | free hk _ ih => exact ih (h.successor hk)
  | read hk _ ih => exact ih (h.successor hk)

theorem exists_spells_iff_linked [Ordered S] {rules : Table (FiniteRule S C)} :
    (∃ w, Spells rules s w t) ↔ ReflTransGen (Linked rules) s t := by
  constructor
  · rintro ⟨w, h⟩
    exact (within_start rules s).spells h t rfl
  · intro h
    induction h using ReflTransGen.head_induction_on with
    | refl => exact ⟨[], .refl t⟩
    | head hlink _ ih =>
      obtain ⟨w, hw⟩ := ih
      obtain ⟨⟨s, trigger, u⟩, hr, rfl, rfl⟩ := hlink
      cases trigger with
      | none => exact ⟨w, .free (FiniteRule.mem_successors_iff.2 hr) hw⟩
      | some a => exact ⟨a :: w, .read (FiniteRule.mem_successors_iff.2 hr) hw⟩

end TableMachines.Table
