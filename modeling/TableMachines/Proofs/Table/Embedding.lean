import TableMachines.Analysis.Audit
import TableMachines.Proofs.Analysis.CycleSearch
import TableMachines.Proofs.SortedSet.Saturation
import TableMachines.Table

namespace TableMachines.Table

open SortedSet

variable {R R' S C K K' : Type} [Rule R S C K] [Rule R' S C K'] {f : R → R'} {g : K → K'}

structure Embeds [Rule R S C K] [Rule R' S C K'] (f : R → R') (g : K → K') : Prop where
  source : ∀ r, Rule.source (f r) = Rule.source r
  target : ∀ r, Rule.target (f r) = Rule.target r
  trigger : ∀ r, Rule.trigger (f r) = Rule.trigger r
  fits : ∀ r k, Rule.Fits (f r) (g k) ↔ Rule.Fits r k
  follow : ∀ r k, Rule.follow (f r) (g k) = g (Rule.follow r k)
  overlaps : ∀ r t, Rule.Overlaps (f r) (f t) ↔ Rule.Overlaps r t

namespace Embeds

theorem applies (h : Embeds f g) (r : R) (k : K) (a : Option C) :
    Rule.Applies (f r) (g k) a ↔ Rule.Applies r k a := by
  rw [Rule.Applies, h.trigger, h.fits, Rule.Applies]

section Moves

variable [Ordered C] {rules : Table R} {k : K} {k' : K'}

theorem next?_map (h : Embeds f g) (rules : Table R) (k : K) (a : Option C) :
    next? (rules.map f) (g k) a = (next? rules k a).map g := by
  simp only [next?, ruleFor?, List.find?_map, Function.comp_def, h.applies, Option.map_map, h.follow]

theorem settle?_map (h : Embeds f g) (rules : Table R) (bound : Nat) (k : K) :
    settle? (rules.map f) bound (g k) = (settle? rules bound k).map g := by
  fun_induction settle? rules bound k with
  | case1 bound k hk =>
    have hk' : next? (rules.map f) (g k) none = none := by rw [h.next?_map, hk]; rfl
    exact settle?_of_none hk' bound
  | case2 k l hl =>
    have hl' : next? (rules.map f) (g k) none = some (g l) := by rw [h.next?_map, hl]; rfl
    exact settle?_zero_of_some hl'
  | case3 k l hl bound ih =>
    have hl' : next? (rules.map f) (g k) none = some (g l) := by rw [h.next?_map, hl]; rfl
    rw [settle?_succ_of_some hl', ih]

theorem successors_map (h : Embeds f g) (rules : Table R) (a : Option C) (k : K) :
    successors (rules.map f) a (g k) = (successors rules a k).map g := by
  simp only [successors, rulesFor, List.filter_map, Function.comp_def, h.applies, List.map_map,
    h.follow]

theorem leads_map_iff (h : Embeds f g) :
    Leads (successors (rules.map f) none) (g k) k' ↔
      ∃ l, g l = k' ∧ Leads (successors rules none) k l := by
  constructor
  · intro hk
    induction hk with
    | refl => exact ⟨k, rfl, .refl⟩
    | tail _ hstep ih =>
      obtain ⟨l, rfl, hl⟩ := ih
      rw [h.successors_map] at hstep
      obtain ⟨l', hl', rfl⟩ := List.mem_map.1 hstep
      exact ⟨l', rfl, hl.tail hl'⟩
  · rintro ⟨l, rfl, hl⟩
    apply hl.lift g
    intro x y hxy
    change g y ∈ successors (rules.map f) none (g x)
    rw [h.successors_map]
    exact List.mem_map_of_mem hxy

variable [Ordered K] [Ordered K']

theorem advance_image (h : Embeds f g) (rules : Table R) (a : Option C) (ks : SortedSet K) :
    advance (rules.map f) a (ks.image g) = (advance rules a ks).image g := by
  ext k'
  simp only [advance, mem_expand, mem_image]
  constructor
  · rintro ⟨_, ⟨k, hk, rfl⟩, hk'⟩
    rw [h.successors_map] at hk'
    obtain ⟨l, hl, rfl⟩ := List.mem_map.1 hk'
    exact ⟨l, ⟨k, hk, hl⟩, rfl⟩
  · rintro ⟨l, ⟨k, hk, hl⟩, rfl⟩
    refine ⟨g k, ⟨k, hk, rfl⟩, ?_⟩
    rw [h.successors_map]
    exact List.mem_map_of_mem hl

theorem closure?_image (h : Embeds f g) {n n' : Nat} {ks ks' : SortedSet K}
    (hclosed : closure? rules n ks = some ks') (room : List K)
    (hroom : ∀ k ∈ ks, ∀ l, Leads (successors rules none) k l → l ∈ ks ∨ l ∈ room)
    (hn' : room.length < n') :
    closure? (rules.map f) n' (ks.image g) = some (ks'.image g) := by
  have hsome : closure? (rules.map f) n' (ks.image g) =
      some (saturate (successors (rules.map f) none) n' (ks.image g)) := by
    apply saturate?_eq_saturate (room.map g)
    · intro x hx y hxy
      obtain ⟨k, hk, rfl⟩ := mem_image.1 hx
      obtain ⟨l, rfl, hl⟩ := h.leads_map_iff.1 hxy
      rcases hroom k hk l hl with hmem | hmem
      · exact .inl (mem_image.2 ⟨l, hmem, rfl⟩)
      · exact .inr (List.mem_map_of_mem hmem)
    · rwa [List.length_map]
  rw [hsome]
  congr 1
  ext k'
  rw [mem_saturate? hsome, mem_image]
  constructor
  · rintro ⟨x, hx, hxk⟩
    obtain ⟨k, hk, rfl⟩ := mem_image.1 hx
    obtain ⟨l, rfl, hl⟩ := h.leads_map_iff.1 hxk
    exact ⟨l, (mem_saturate? hclosed).2 ⟨k, hk, hl⟩, rfl⟩
  · rintro ⟨l, hl, rfl⟩
    obtain ⟨k, hk, hkl⟩ := (mem_saturate? hclosed).1 hl
    exact ⟨g k, mem_image.2 ⟨k, hk, rfl⟩, h.leads_map_iff.2 ⟨l, rfl, hkl⟩⟩

end Moves

section Checks

variable {rules : Table R}

theorem isFree (h : Embeds f g) (r : R) : Rule.isFree (f r) = Rule.isFree r := by
  rw [Rule.isFree, h.trigger, Rule.isFree]

theorem conflicts_map (h : Embeds f g) (rules : Table R) :
    conflicts (rules.map f) = (conflicts rules).map fun p => (f p.1, f p.2) := by
  induction rules with
  | nil => rfl
  | cons r rules ih =>
    simp only [List.map_cons, conflicts, List.map_append, ih, List.filter_map, Function.comp_def,
      h.overlaps, List.map_map]

theorem conflict?_map (h : Embeds f g) :
    conflict? (rules.map f) = none ↔ conflict? rules = none := by
  unfold conflict?
  rw [h.conflicts_map]
  cases conflicts rules with
  | nil => simp
  | cons p pairs => simp

variable [Ordered S]

theorem freeSources_map (h : Embeds f g) (rules : Table R) :
    freeSources (rules.map f) = freeSources rules := by
  simp only [freeSources, List.filter_map, Function.comp_def, h.isFree, List.map_map, h.source]

theorem freeTargets_map (h : Embeds f g) (rules : Table R) (s : S) :
    freeTargets (rules.map f) s = freeTargets rules s := by
  simp only [freeTargets, List.filter_map, Function.comp_def, h.isFree, h.source, List.map_map,
    h.target]

theorem searchFrom_map (h : Embeds f g) (rules : Table R) (n : Nat) (path : List S)
    (done : SortedSet S) (s : S) :
    searchFrom (rules.map f) n path done s = searchFrom rules n path done s := by
  induction n generalizing path done s with
  | zero => rfl
  | succ n ih =>
    have hvisit : visit (rules.map f) n (path ++ [s]) = visit rules n (path ++ [s]) := by
      simp only [visit_eq, ih]
    rw [searchFrom_succ, searchFrom_succ, hvisit, h.freeTargets_map]

theorem freeCycle?_map (h : Embeds f g) (rules : Table R) :
    freeCycle? (rules.map f) = freeCycle? rules := by
  simp only [freeCycle?, h.freeSources_map, h.searchFrom_map, List.length_map]

theorem freeCycleProblem?_map (h : Embeds f g) :
    freeCycleProblem? (rules.map f) = none ↔ freeCycleProblem? rules = none := by
  rw [freeCycleProblem?, freeCycleProblem?, h.freeCycle?_map, Option.map_eq_none_iff,
    Option.map_eq_none_iff]

theorem reachable_map (h : Embeds f g) (rules : Table R) (start : S) :
    reachable (rules.map f) start = reachable rules start := by
  have htargets : targets (rules.map f) = targets rules := by
    funext s
    simp only [targets, List.filter_map, Function.comp_def, h.source, List.map_map, h.target]
  rw [reachable, reachable, htargets, List.length_map]

theorem unreachableProblem?_map (h : Embeds f g) {start : S} {accept : SortedSet S} :
    unreachableProblem? (rules.map f) start accept = none ↔
      unreachableProblem? rules start accept = none := by
  have hunreachable : unreachable (rules.map f) start accept = unreachable rules start accept := by
    rw [unreachable, unreachable, h.reachable_map]
  unfold unreachableProblem?
  rw [hunreachable]
  cases unreachable rules start accept with
  | nil => simp
  | cons s states => simp

end Checks

end Embeds

end TableMachines.Table
