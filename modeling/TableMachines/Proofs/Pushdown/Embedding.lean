import TableMachines.Catalog.Tables
import TableMachines.Proofs.Finite.Closed
import TableMachines.Proofs.Finite.Reading
import TableMachines.Proofs.Pushdown.Closed
import TableMachines.Proofs.Pushdown.Reading
import TableMachines.Proofs.Table.Embedding

namespace TableMachines

open SortedSet Table

variable {S C : Type}

def FiniteRule.onStack (bottom : C) (r : FiniteRule S C) : PushdownRule S C :=
  ⟨r.source, r.trigger, r.target, bottom, [bottom]⟩

def Control.onBottom (bottom : C) (c : Control S) : PushdownConfig S C :=
  ⟨c, ⟨[bottom]⟩⟩

def Dfa.onStack [Ordered S] (bottom : C) (m : Dfa S C) : Dpda S C :=
  ⟨m.start, bottom, m.accept, m.rules.map (FiniteRule.onStack bottom)⟩

def Nfa.onStack [Ordered S] (bottom : C) (m : Nfa S C) : Npda S C :=
  ⟨m.start, bottom, m.accept, m.rules.map (FiniteRule.onStack bottom)⟩

variable [Ordered S] [Ordered C] {bound : Nat}

theorem embeds_onStack (bottom : C) :
    Embeds (FiniteRule.onStack (S := S) bottom) fun s => (Control.active s).onBottom bottom where
  source _ := rfl
  target _ := rfl
  trigger _ := rfl
  fits r s := by
    simp [Rule.Fits, FiniteRule.onStack, Control.onBottom, Stack.top?, eq_comm]
  follow _ _ := rfl
  overlaps r t := by
    simp [Rule.Overlaps, FiniteRule.onStack]

namespace Dfa

variable {m : Dfa S C}

theorem next?_onStack (bottom : C) (c : Control S) (a : C) :
    (next? (m.onStack bottom).rules (c.onBottom bottom) (some a)).getD (c.onBottom bottom).jam =
      (Control.ofState? (c.state?.bind (next? m.rules · (some a)))).onBottom bottom := by
  cases c with
  | active s =>
    have hnext := (embeds_onStack bottom).next?_map m.rules s (some a)
    change (next? (m.rules.map (FiniteRule.onStack bottom)) _ _).getD _ = _
    rw [hnext, Control.state?_active, Option.bind_some]
    cases next? m.rules s (some a) with
    | none => rfl
    | some t => rfl
  | stuck =>
    rw [PushdownConfig.next?_of_isStuck rfl]
    rfl

section

variable (bottom : C) (hbound : (freeSources m.rules).size ≤ bound)

include hbound

theorem settled?_onStack (c : Control S) :
    (m.onStack bottom).settled? bound (c.onBottom bottom) =
      (m.settled? c).map (·.onBottom bottom) := by
  cases c with
  | active s =>
    rw [settled?_active m hbound, Option.map_map]
    exact (embeds_onStack bottom).settle?_map m.rules bound s
  | stuck => exact Dpda.settled?_of_isStuck rfl

theorem read?_onStack (c : Control S) (a : C) :
    (m.onStack bottom).read? bound (c.onBottom bottom) a =
      (m.read? c a).map (·.onBottom bottom) := by
  have hsettled := settled?_onStack bottom hbound c
  cases hc : m.settled? c with
  | none =>
    rw [hc] at hsettled
    rw [Dpda.read?, hsettled, read?, hc]
    rfl
  | some d =>
    rw [hc] at hsettled
    rw [Dpda.read?_of_settled? hsettled, read?_of_settled? hc, next?_onStack]
    rfl

theorem run?_onStack (c : Control S) (w : List C) :
    (m.onStack bottom).run? bound (c.onBottom bottom) w =
      (m.run? c w).map (·.onBottom bottom) := by
  induction w generalizing c with
  | nil => rfl
  | cons a w ih =>
    rw [Dpda.run?_cons, run?_cons, read?_onStack bottom hbound]
    cases m.read? c a with
    | none => rfl
    | some d => exact ih d

theorem accepting?_onStack (c : Control S) :
    (m.onStack bottom).accepting? bound (c.onBottom bottom) = m.accepting? c := by
  have hsettled := settled?_onStack bottom hbound c
  cases hc : m.settled? c with
  | none =>
    rw [hc] at hsettled
    rw [Dpda.accepting?, hsettled, accepting?, hc]
    rfl
  | some d =>
    rw [hc] at hsettled
    rw [Dpda.accepting?_of_settled? hsettled, accepting?_of_settled? hc]
    rfl

theorem accepts?_onStack (w : List C) :
    (m.onStack bottom).accepts? bound w = m.accepts? w := by
  have hrun := run?_onStack bottom hbound (.active m.start) w
  rw [Dpda.accepts?, accepts?]
  change (Dpda.run? _ bound ((Control.active m.start).onBottom bottom) w >>= _) = _
  rw [hrun]
  cases m.run? (.active m.start) w with
  | none => rfl
  | some c => exact accepting?_onStack bottom hbound c

end

end Dfa

namespace Nfa

variable {m : Nfa S C} {p : SortedSet S}

def stacked (bottom : C) (p : SortedSet S) : SortedSet (PushdownConfig S C) :=
  p.image fun s => (Control.active s).onBottom bottom

theorem mem_stacked {bottom : C} {k : PushdownConfig S C} :
    k ∈ stacked bottom p ↔ ∃ s ∈ p, (Control.active s).onBottom bottom = k :=
  mem_image

theorem stacked_start (m : Nfa S C) (bottom : C) :
    stacked bottom {m.start} = {(m.onStack bottom).startConfig} := by
  ext k
  simp only [mem_stacked, mem_singleton, exists_eq_left, eq_comm (a := k)]
  rfl

section

variable (bottom : C) (hbound : m.rules.length < bound)

include hbound

theorem closed?_onStack (p : SortedSet S) :
    (m.onStack bottom).closed? bound (stacked bottom p) = some (stacked bottom (m.closed p)) := by
  apply (embeds_onStack bottom).closure?_image (m.closure?_eq p) (m.rules.map FiniteRule.target)
  · intro s hs t hst
    rcases m.leads_target hst with rfl | ht
    · exact .inl hs
    · exact .inr ht
  · rwa [List.length_map]

theorem read?_onStack (p : SortedSet S) (a : C) :
    (m.onStack bottom).read? bound (stacked bottom p) a = some (stacked bottom (m.read p a)) := by
  rw [Npda.read?_eq_some (closed?_onStack bottom hbound p), read, stacked]
  exact congrArg some ((embeds_onStack bottom).advance_image m.rules (some a) (m.closed p))

theorem run?_onStack (p : SortedSet S) (w : List C) :
    (m.onStack bottom).run? bound (stacked bottom p) w = some (stacked bottom (m.run p w)) := by
  induction w generalizing p with
  | nil => rfl
  | cons a w ih =>
    rw [Npda.run?_cons, read?_onStack bottom hbound, run_cons]
    exact ih (m.read p a)

theorem accepting?_onStack (p : SortedSet S) :
    (m.onStack bottom).accepting? bound (stacked bottom p) = some (m.accepting p) := by
  rw [Npda.accepting?_eq (closed?_onStack bottom hbound p)]
  congr 1
  rw [Bool.eq_iff_iff, Npda.any_accept_iff, accepting, meets_iff]
  constructor
  · rintro ⟨s, hs, stack, hk⟩
    obtain ⟨t, ht, hk⟩ := mem_stacked.1 hk
    cases hk
    exact ⟨s, ht, hs⟩
  · rintro ⟨s, hs, haccept⟩
    exact ⟨s, haccept, ⟨[bottom]⟩, mem_stacked.2 ⟨s, hs, rfl⟩⟩

theorem accepts?_onStack (w : List C) :
    (m.onStack bottom).accepts? bound w = some (m.accepts w) := by
  rw [Npda.accepts?, ← stacked_start, run?_onStack bottom hbound]
  exact accepting?_onStack bottom hbound (m.run {m.start} w)

end

end Nfa

theorem Dfa.problem?_onStack (bottom : C) (m : Dfa S C) :
    (m.onStack bottom).problem? = none ↔ m.problem? = none := by
  have hembeds := embeds_onStack (S := S) bottom
  rw [Dfa.problem?_eq_none_iff, Dpda.problem?_eq_none_iff, onStack, hembeds.conflict?_map,
    hembeds.freeCycleProblem?_map, hembeds.unreachableProblem?_map]

theorem onStack_embeds (bottom : C) :
    (∀ (m : Nfa S C) (w : List C) (bound : Nat), m.rules.length < bound → ∃ p r,
      (m.onStack bottom).run? bound {(m.onStack bottom).startConfig} w = some p ∧
      (m.onStack bottom).closed? bound p = some r ∧
      (∀ k, k ∈ r ↔ ∃ s ∈ m.closed (m.run {m.start} w), k = ⟨.active s, ⟨[bottom]⟩⟩) ∧
      (m.onStack bottom).accepts? bound w = some (m.accepts w)) ∧
    (∀ (m : Dfa S C) (w : List C) (bound : Nat), (freeSources m.rules).size ≤ bound →
      (m.onStack bottom).run? bound (m.onStack bottom).startConfig w =
        (m.run? (.active m.start) w).map (⟨·, ⟨[bottom]⟩⟩) ∧
      (∀ c, (m.onStack bottom).settled? bound ⟨c, ⟨[bottom]⟩⟩ =
        (m.settled? c).map (⟨·, ⟨[bottom]⟩⟩)) ∧
      (m.onStack bottom).accepts? bound w = m.accepts? w) ∧
    ∀ m : Dfa S C, (m.onStack bottom).problem? = none ↔ m.problem? = none := by
  refine ⟨fun m w bound hbound => ?_, fun m w bound hbound => ?_, Dfa.problem?_onStack bottom⟩
  · have hrun := Nfa.run?_onStack bottom hbound {m.start} w
    rw [Nfa.stacked_start] at hrun
    have haccepts := Nfa.accepts?_onStack bottom hbound w
    refine ⟨_, _, hrun, Nfa.closed?_onStack bottom hbound _, fun k => ?_, haccepts⟩
    simp only [Nfa.mem_stacked, Control.onBottom, eq_comm (a := k)]
  · exact ⟨Dfa.run?_onStack bottom hbound (.active m.start) w, Dfa.settled?_onStack bottom hbound,
      Dfa.accepts?_onStack bottom hbound w⟩

theorem onStack_embeds_ab :
    let m := Catalog.abNfa
    let d : Dfa UInt32 Char := ⟨1, {3}, Catalog.finite
      [(1, none, 2), (2, some 'a', 3), (2, some 'a', 1), (3, some 'b', 1)]⟩
    (∃ p r, (m.onStack '$').run? 7 {(m.onStack '$').startConfig} ['a', 'b'] = some p ∧
      (m.onStack '$').closed? 7 p = some r ∧
      (∀ k, k ∈ r ↔ ∃ s ∈ m.closed (m.run {m.start} ['a', 'b']), k = ⟨.active s, ⟨['$']⟩⟩) ∧
      (m.onStack '$').accepts? 7 ['a', 'b'] = some (m.accepts ['a', 'b'])) ∧
    (d.onStack '$').run? 1 (d.onStack '$').startConfig ['a', 'b', 'b'] =
      (d.run? (.active 1) ['a', 'b', 'b']).map (⟨·, ⟨['$']⟩⟩) ∧
    (d.onStack '$').accepts? 1 ['a'] = some true := by
  intro m d
  obtain ⟨hnfa, hdfa, -⟩ := onStack_embeds (S := UInt32) '$'
  refine ⟨hnfa m ['a', 'b'] 7 (by decide), (hdfa d ['a', 'b', 'b'] 1 (by decide)).1, ?_⟩
  exact (hdfa d ['a'] 1 (by decide)).2.2.trans (by decide)

end TableMachines
