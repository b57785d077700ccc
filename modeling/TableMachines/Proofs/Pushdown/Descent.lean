import TableMachines.Proofs.Pushdown.Closed

namespace TableMachines

open SortedSet Table

variable {S C : Type}

/-- Every free move pushes something, and the new top symbol in the new state weighs less than the
old one in the old state. -/
def PushdownRule.Descends (rules : Table (PushdownRule S C)) (weight : S → C → Nat) : Prop :=
  ∀ r ∈ rules, r.trigger = none →
    (r.push.head?.any fun b => weight r.target b < weight r.source r.pop) = true

def PushdownConfig.topWeight (weight : S → C → Nat) (k : PushdownConfig S C) : Nat :=
  match k.control, k.stack.top? with
  | .active s, some b => weight s b
  | _, _ => 0

open PushdownRule PushdownConfig

variable {weight : S → C → Nat} {n : Nat}

theorem PushdownConfig.topWeight_le (hn : ∀ s b, weight s b ≤ n) (k : PushdownConfig S C) :
    k.topWeight weight ≤ n := by
  unfold topWeight
  split
  · exact hn _ _
  · exact Nat.zero_le n

variable [Ordered S] [Ordered C]

theorem PushdownConfig.topWeight_lt {rules : Table (PushdownRule S C)} (h : Descends rules weight)
    {k l : PushdownConfig S C} (hl : l ∈ successors rules none k) :
    l.topWeight weight < k.topWeight weight := by
  obtain ⟨r, hr, ⟨htrigger, hcontrol, htop⟩, rfl⟩ := mem_successors.1 hl
  obtain ⟨b, hb, hlt⟩ : ∃ b, r.push.head? = some b ∧ weight r.target b < weight r.source r.pop := by
    simpa [Option.any_eq_true] using h r hr htrigger
  have htop' : (k.stack.pop.pushAll r.push).top? = some b := by
    rw [Stack.top?, Stack.symbols_pushAll, List.head?_append, hb]
    rfl
  have hnew : (Rule.follow r k).topWeight weight = weight r.target b := by
    simp only [topWeight, Rule.follow, htop']
  have hold : k.topWeight weight = weight r.source r.pop := by
    simp only [topWeight, hcontrol, htop]
  omega

namespace Npda

variable {m : Npda S C}

theorem exists_closed?_of_descends (h : Descends m.rules weight) (hn : ∀ s b, weight s b ≤ n)
    (p : SortedSet (PushdownConfig S C)) :
    ∃ r, ∀ bound, n < bound → m.closed? bound p = some r := by
  apply exists_saturate?_of_rank
  · intro k l hl
    exact topWeight_lt h hl
  · intro k _
    exact Nat.lt_succ_of_le (topWeight_le hn k)

theorem exists_run?_of_descends (h : Descends m.rules weight) (hn : ∀ s b, weight s b ≤ n)
    (p : SortedSet (PushdownConfig S C)) (w : List C) :
    ∃ q, ∀ bound, n < bound → m.run? bound p w = some q := by
  induction w generalizing p with
  | nil => exact ⟨p, fun bound _ => rfl⟩
  | cons a w ih =>
    obtain ⟨r, hr⟩ := exists_closed?_of_descends h hn p
    obtain ⟨q, hq⟩ := ih (m.rules.advance (some a) r)
    refine ⟨q, fun bound hbound => ?_⟩
    rw [run?_cons, read?_eq_some (hr bound hbound)]
    exact hq bound hbound

theorem exists_accepts?_of_descends (h : Descends m.rules weight) (hn : ∀ s b, weight s b ≤ n)
    (w : List C) : ∃ b, (∀ bound, n < bound → m.accepts? bound w = some b) ∧
      (b = true ↔ ∃ s ∈ m.accept, ∃ stack, Spells m.rules m.startConfig w ⟨.active s, stack⟩) := by
  obtain ⟨q, hq⟩ := exists_run?_of_descends h hn {m.startConfig} w
  obtain ⟨r, hr⟩ := exists_closed?_of_descends h hn q
  apply exists_accepts?_of_run?
  intro bound hbound
  exact ⟨hq bound hbound, hr bound hbound⟩

end Npda

end TableMachines
