import TableMachines.Proofs.Pushdown.Moves
import TableMachines.Proofs.Pushdown.Reading

namespace TableMachines

open Table PushdownConfig PushdownRule

variable {S C X : Type} [Ordered S] [Ordered C]

namespace Dpda

def lookup? (m : Dpda S C) (s : S) (b : C) (a : Option C) : Option (PushdownRule S C) :=
  m.rules.find? fun r => decide (r.source = s ∧ r.pop = b ∧ r.trigger = a)

theorem next?_ofPair (m : Dpda S C) (s : S) (b : C) (rest : List C) (a : Option C) :
    next? m.rules (ofPair (s, b :: rest)) a =
      (m.lookup? s b a).map fun r => ofPair (r.target, r.push ++ rest) := by
  have hfind : ruleFor? m.rules (ofPair (s, b :: rest)) a = m.lookup? s b a := by
    unfold ruleFor? lookup?
    congr 1
    funext r
    apply decide_eq_decide.2
    constructor
    · rintro ⟨ha, hs, hb⟩
      exact ⟨(Control.active.inj hs).symm, (Option.some.inj hb).symm, ha⟩
    · rintro ⟨rfl, rfl, ha⟩
      exact ⟨ha, rfl, rfl⟩
  rw [next?, hfind]
  cases m.lookup? s b a with
  | none => rfl
  | some r => exact congrArg some (follow_ofPair r s b rest)

/-- Under a bound of `least` free moves the stored configuration of a value settles in another one,
in which symbols do what `step` does to the value. -/
structure Keeps (m : Dpda S C) (least : Nat) (step : X → C → Option X)
    (stored settled : X → PushdownConfig S C) : Prop where
  settles : ∀ x, m.settled? least (stored x) = some (settled x)
  reads : ∀ x a, next? m.rules (settled x) (some a) = (step x a).map stored

variable {m : Dpda S C} {least bound : Nat} {step : X → C → Option X}
  {stored settled : X → PushdownConfig S C} {k : PushdownConfig S C} {x y : X} {w : List C}

theorem Keeps.settled? (h : m.Keeps least step stored settled) (hb : least ≤ bound) (x : X) :
    m.settled? bound (stored x) = some (settled x) :=
  settle?_of_le (h.settles x) hb

theorem Keeps.read? (h : m.Keeps least step stored settled)
    (hk : m.settled? bound k = some (settled x)) (a : C) :
    m.read? bound k a = some (((step x a).map stored).getD (settled x).jam) := by
  rw [read?_of_settled? hk, h.reads]

theorem Keeps.run?_of_some (h : m.Keeps least step stored settled) (hb : least ≤ bound)
    (hk : m.settled? bound k = some (settled x)) (hw : w.foldlM step x = some y) :
    ∃ q, m.run? bound k w = some q ∧ m.settled? bound q = some (settled y) := by
  induction w generalizing k x with
  | nil =>
    cases hw
    exact ⟨k, rfl, hk⟩
  | cons a w ih =>
    rw [List.foldlM_cons] at hw
    obtain ⟨x', hx', hw⟩ := Option.bind_eq_some_iff.1 hw
    rw [run?_cons, h.read? hk, hx']
    exact ih (h.settled? hb x') hw

theorem Keeps.run?_of_none (h : m.Keeps least step stored settled) (hb : least ≤ bound)
    (hk : m.settled? bound k = some (settled x)) (hw : w.foldlM step x = none) :
    ∃ q, m.run? bound k w = some q ∧ q.isStuck = true := by
  induction w generalizing k x with
  | nil => cases hw
  | cons a w ih =>
    rw [List.foldlM_cons] at hw
    rw [run?_cons, h.read? hk]
    cases hx' : step x a with
    | none => exact ⟨_, run?_of_isStuck rfl w, rfl⟩
    | some x' =>
      rw [hx'] at hw
      exact ih (h.settled? hb x') hw

theorem Keeps.accepts? (h : m.Keeps least step stored settled)
    (hstart : m.settled? least m.startConfig = some (settled x)) (hb : least ≤ bound) (w : List C) :
    m.accepts? bound w = some
      ((w.foldlM step x).any fun y => (settled y).control.state?.any (· ∈ m.accept)) := by
  have hstart' : m.settled? bound m.startConfig = some (settled x) := settle?_of_le hstart hb
  cases hw : w.foldlM step x with
  | none =>
    obtain ⟨q, hrun, hq⟩ := h.run?_of_none hb hstart' hw
    rw [accepts?_of_run? hrun, accepting?_of_settled? (settled?_of_isStuck hq), state?_of_isStuck hq]
    rfl
  | some y =>
    obtain ⟨q, hrun, hq⟩ := h.run?_of_some hb hstart' hw
    rw [accepts?_of_run? hrun, accepting?_of_settled? hq]
    rfl

end Dpda

end TableMachines
