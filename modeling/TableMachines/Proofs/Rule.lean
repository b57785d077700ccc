import TableMachines.Finite.Automata
import TableMachines.Pushdown.Rule
import TableMachines.Turing.Dtm

namespace TableMachines

class LawfulRule (R : Type) (S C K : outParam Type) [Rule R S C K] where
  state? : K → Option S
  state?_of_fits {r : R} {k : K} : Rule.Fits r k → state? k = some (Rule.source r)
  state?_follow (r : R) (k : K) : state? (Rule.follow r k) = some (Rule.target r)
  overlaps_iff {r t : R} : Rule.Overlaps r t ↔
    Collide (Rule.trigger r) (Rule.trigger t) ∧ ∃ k : K, Rule.Fits r k ∧ Rule.Fits t k

/-- Rules that fit all configurations of one place: one state and, unless only the state counts, one
symbol at the top of the stack or under the head. -/
class PlacedRule (R : Type) (S C K P : outParam Type) [Rule R S C K] extends
    LawfulRule R S C K where
  place : R → P
  place? : K → Option P
  fits_iff {r : R} {k : K} : Rule.Fits r k ↔ place? k = some (place r)
  exists_fits (r : R) : ∃ k : K, Rule.Fits r k

namespace PlacedRule

variable {R S C K P : Type} [Rule R S C K] [PlacedRule R S C K P] {r t : R}

theorem applies_iff (hp : place r = place t) (htr : Rule.trigger r = Rule.trigger t) (k : K)
    (a : Option C) : Rule.Applies r k a ↔ Rule.Applies t k a := by
  unfold Rule.Applies
  rw [fits_iff, fits_iff, hp, htr]

theorem overlaps_iff_place :
    Rule.Overlaps r t ↔ place r = place t ∧ Collide (Rule.trigger r) (Rule.trigger t) := by
  rw [LawfulRule.overlaps_iff]
  constructor
  · rintro ⟨hc, k, hr, ht⟩
    have hplace := (fits_iff.1 hr).symm.trans (fits_iff.1 ht)
    exact ⟨Option.some.inj hplace, hc⟩
  · rintro ⟨hp, hc⟩
    obtain ⟨k, hr⟩ := exists_fits r
    refine ⟨hc, k, hr, fits_iff.2 ?_⟩
    rw [← hp]
    exact fits_iff.1 hr

end PlacedRule

variable {S C : Type} [Ordered S] [Ordered C]

instance : LawfulRule (FiniteRule S C) S C S where
  state? := some
  state?_of_fits h := congrArg some h.symm
  state?_follow _ _ := rfl
  overlaps_iff {r t} := by
    constructor
    · rintro ⟨hs, hc⟩
      exact ⟨hc, r.source, rfl, hs.symm⟩
    · rintro ⟨hc, s, hr, ht⟩
      exact ⟨hr.trans ht.symm, hc⟩

instance : LawfulRule (PushdownRule S C) S C (PushdownConfig S C) where
  state? k := k.control.state?
  state?_of_fits h := congrArg Control.state? h.1
  state?_follow _ _ := rfl
  overlaps_iff {r t} := by
    constructor
    · rintro ⟨hs, hp, hc⟩
      exact ⟨hc, ⟨.active r.source, ⟨[r.pop]⟩⟩, ⟨rfl, rfl⟩, congrArg Control.active hs, congrArg some hp⟩
    · rintro ⟨hc, k, ⟨hrs, hrp⟩, hts, htp⟩
      exact ⟨Control.active.inj (hrs.symm.trans hts), Option.some.inj (hrp.symm.trans htp), hc⟩

instance : LawfulRule (TuringRule S C) S C (TuringConfig S C) where
  state? k := some k.state
  state?_of_fits h := congrArg some h.1.symm
  state?_follow _ _ := rfl
  overlaps_iff {r t} := by
    constructor
    · rintro ⟨hs, ha⟩
      exact ⟨ha, ⟨r.source, ⟨[], r.scanned, [], r.scanned⟩⟩, ⟨rfl, rfl⟩, hs.symm, ha.symm⟩
    · rintro ⟨ha, k, ⟨hrs, _⟩, hts, _⟩
      exact ⟨hrs.trans hts.symm, ha⟩

instance : PlacedRule (FiniteRule S C) S C S S where
  place := FiniteRule.source
  place? := some
  fits_iff {r s} := by
    rw [Option.some.injEq]
    exact eq_comm
  exists_fits r := ⟨r.source, rfl⟩

instance : PlacedRule (PushdownRule S C) S C (PushdownConfig S C) (S × C) where
  place r := (r.source, r.pop)
  place? k := k.control.state?.bind fun s => k.stack.top?.map (s, ·)
  fits_iff {r k} := by
    obtain ⟨control, stack⟩ := k
    cases control with
    | active s =>
      cases htop : stack.top? with
      | none => simp [Rule.Fits, htop]
      | some b => simp [Rule.Fits, htop]
    | stuck => simp [Rule.Fits]
  exists_fits r := ⟨⟨.active r.source, ⟨[r.pop]⟩⟩, rfl, rfl⟩

instance : PlacedRule (TuringRule S C) S C (TuringConfig S C) (S × C) where
  place r := (r.source, r.scanned)
  place? k := some (k.state, k.tape.scanned)
  fits_iff {r k} := by simp [Rule.Fits, eq_comm]
  exists_fits r := ⟨⟨r.source, ⟨[], r.scanned, [], r.scanned⟩⟩, rfl, rfl⟩

end TableMachines
