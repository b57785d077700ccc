import Mathlib.Logic.Function.Iterate
import TableMachines.Proofs.Turing.Cells
import TableMachines.Turing.Dtm

namespace TableMachines

structure TwoWay (S C : Type) where
  state : S
  head : Int
  cell : Int → C

namespace TwoWay

variable {S C : Type}

structure Denotes (k : TuringConfig S C) (a : TwoWay S C) : Prop where
  state : k.state = a.state
  cell : ∀ i, k.tape.cell i = a.cell (a.head + i)

theorem Denotes.start (s : S) (t : Tape C) (head : Int) :
    Denotes ⟨s, t⟩ ⟨s, head, fun i => t.cell (i - head)⟩ where
  state := rfl
  cell i := by
    show t.cell i = t.cell (head + i - head)
    congr 1
    omega

theorem Denotes.scanned {k : TuringConfig S C} {a : TwoWay S C} (h : Denotes k a) :
    k.tape.scanned = a.cell a.head := by
  have h0 := h.cell 0
  rwa [Tape.cell_zero, Int.add_zero] at h0

variable [Ordered S] [Ordered C]

def ruleFor? (rules : Table (TuringRule S C)) (a : TwoWay S C) : Option (TuringRule S C) :=
  rules.find? fun r => decide (r.source = a.state ∧ r.scanned = a.cell a.head)

def follow (a : TwoWay S C) (r : TuringRule S C) : TwoWay S C :=
  ⟨r.target, a.head + r.direction.offset, Function.update a.cell a.head r.write⟩

def next? (rules : Table (TuringRule S C)) (a : TwoWay S C) : Option (TwoWay S C) :=
  (a.ruleFor? rules).map a.follow

def attempt (rules : Table (TuringRule S C)) (a : TwoWay S C × Nat) : TwoWay S C × Nat :=
  match a.1.next? rules with
  | some b => (b, a.2 + 1)
  | none => a

variable {k : TuringConfig S C} {a : TwoWay S C} (rules : Table (TuringRule S C))

theorem Denotes.ruleFor? (h : Denotes k a) :
    rules.ruleFor? k (some k.tape.scanned) = a.ruleFor? rules := by
  unfold Table.ruleFor? TwoWay.ruleFor?
  congr 1
  funext r
  rw [← h.state, ← h.scanned]
  apply decide_eq_decide.2
  constructor
  · rintro ⟨_, hs, hc⟩
    exact ⟨hs, hc⟩
  · rintro ⟨hs, hc⟩
    exact ⟨congrArg some hc, hs, hc⟩

theorem Denotes.follow (h : Denotes k a) (r : TuringRule S C) :
    Denotes (Rule.follow r k) (a.follow r) where
  state := rfl
  cell i := by
    show ((k.tape.write r.write).move r.direction).cell i =
      Function.update a.cell a.head r.write (a.head + r.direction.offset + i)
    rw [Tape.cell_move, Tape.cell_write]
    by_cases hi : i + r.direction.offset = 0
    · have hpos : a.head + r.direction.offset + i = a.head := by omega
      rw [if_pos hi, hpos, Function.update_self]
    · have hpos : a.head + r.direction.offset + i ≠ a.head := by omega
      rw [if_neg hi, Function.update_of_ne hpos, h.cell]
      congr 1
      omega

theorem Denotes.next? (h : Denotes k a) :
    (∃ k' b, rules.nextTuring? k = some k' ∧ a.next? rules = some b ∧ Denotes k' b) ∨
      rules.nextTuring? k = none ∧ a.next? rules = none := by
  unfold Table.nextTuring? Table.next? TwoWay.next?
  rw [h.ruleFor? rules]
  cases a.ruleFor? rules with
  | none => exact .inr ⟨rfl, rfl⟩
  | some r => exact .inl ⟨_, _, rfl, rfl, h.follow r⟩

end TwoWay

namespace Dtm

open TwoWay

variable {S C : Type} [Ordered S] [Ordered C] (m : Dtm S C)

def afterSteps (n : Nat) (r : Run S C) : Run S C :=
  (fun r => (m.step r).2)^[n] r

def Lockstep (r : Run S C) (a : TwoWay S C × Nat) : Prop :=
  Denotes r.config a.1 ∧ r.steps = a.2

/-- A step halts only where the textbook machine has no rule, and then changes nothing. -/
structure Shows (r : Run S C) (a : TwoWay S C × Nat) : Prop where
  state : r.config.state = a.1.state
  cell : ∀ i, r.config.tape.cell i = a.1.cell (a.1.head + i)
  steps : r.steps = a.2
  accepting : m.accepting r.config = decide (a.1.state ∈ m.accept)
  stuck : m.stuck r.config = (decide (a.1.state ∉ m.accept) && (a.1.next? m.rules).isNone)
  halts : (∃ h, (m.step r).1 = .halt h) ↔ a.1.next? m.rules = none
  halted : a.1.next? m.rules = none →
    m.step r = (.halt (if a.1.state ∈ m.accept then .accepted else .stuck), r)

structure Alike (r r' : Run S C) : Prop where
  state : r.config.state = r'.config.state
  cell : r.config.tape.cell = r'.config.tape.cell
  steps : r.steps = r'.steps
  accepting : m.accepting r.config = m.accepting r'.config
  stuck : m.stuck r.config = m.stuck r'.config
  step : (m.step r).1 = (m.step r').1

variable {m} {r r' : Run S C} {a : TwoWay S C × Nat}

theorem step_of_some {k : TuringConfig S C} (h : m.rules.nextTuring? r.config = some k) :
    m.step r = (.moved, ⟨k, r.steps + 1⟩) := by
  rw [step, h]

theorem step_of_none (h : m.rules.nextTuring? r.config = none) :
    m.step r = (.halt (m.verdict r.config), r) := by
  rw [step, h]

theorem Lockstep.shows (h : Lockstep r a) : m.Shows r a := by
  have hacc : m.accepting r.config = decide (a.1.state ∈ m.accept) := by
    rw [accepting, h.1.state]
  rcases h.1.next? m.rules with ⟨k, b, hk, hb, _⟩ | ⟨hk, hb⟩
  · have hstep := step_of_some hk
    constructor
    · exact h.1.state
    · exact h.1.cell
    · exact h.2
    · exact hacc
    · rw [stuck, hacc, decide_not, hk, hb]
      rfl
    · rw [hstep, hb]
      simp
    · rw [hb]
      exact nofun
  · have hstep := step_of_none hk
    constructor
    · exact h.1.state
    · exact h.1.cell
    · exact h.2
    · exact hacc
    · rw [stuck, hacc, decide_not, hk, hb]
      rfl
    · rw [hstep, hb]
      simp
    · intro _
      rw [hstep, verdict, hacc]
      simp only [decide_eq_true_eq]

theorem Lockstep.step (m : Dtm S C) (h : Lockstep r a) :
    Lockstep (m.step r).2 (attempt m.rules a) := by
  unfold attempt
  rcases h.1.next? m.rules with ⟨k, b, hk, hb, hkb⟩ | ⟨hk, hb⟩
  · rw [step_of_some hk, hb]
    exact ⟨hkb, congrArg (· + 1) h.2⟩
  · rw [step_of_none hk, hb]
    exact h

theorem Lockstep.afterSteps (m : Dtm S C) (h : Lockstep r a) (n : Nat) :
    Lockstep (m.afterSteps n r) ((attempt m.rules)^[n] a) := by
  induction n with
  | zero => exact h
  | succ n ih =>
    rw [Dtm.afterSteps, Function.iterate_succ_apply', Function.iterate_succ_apply']
    exact ih.step m

theorem Shows.alike (h : m.Shows r a) (h' : m.Shows r' a) : m.Alike r r' := by
  constructor
  · rw [h.state, h'.state]
  · funext i
    rw [h.cell, h'.cell]
  · rw [h.steps, h'.steps]
  · rw [h.accepting, h'.accepting]
  · rw [h.stuck, h'.stuck]
  · cases hb : a.1.next? m.rules with
    | none => rw [h.halted hb, h'.halted hb]
    | some b =>
      have hr : ∀ v, (m.step r).1 ≠ .halt v := by simpa [hb] using h.halts
      have hr' : ∀ v, (m.step r').1 ≠ .halt v := by simpa [hb] using h'.halts
      cases hs : (m.step r).1 with
      | halt v => exact absurd hs (hr v)
      | moved =>
        cases hs' : (m.step r').1 with
        | halt v => exact absurd hs' (hr' v)
        | moved => rfl

theorem Alike.halted (h : m.Alike r r') : m.halted r.config = m.halted r'.config := by
  rw [Dtm.halted, Dtm.halted, h.accepting, h.stuck]

theorem Alike.verdict (h : m.Alike r r') : m.verdict r.config = m.verdict r'.config := by
  rw [Dtm.verdict, Dtm.verdict, h.accepting]

theorem Lockstep.advance (h : Lockstep r a) (h' : Lockstep r' a) (n : Nat) :
    ∃ b, Lockstep (m.advance n r) b ∧ Lockstep (m.advance n r') b := by
  induction n generalizing r r' a with
  | zero => exact ⟨a, h, h'⟩
  | succ n ih =>
    have halike := (h.shows (m := m)).alike h'.shows
    unfold Dtm.advance
    rw [halike.halted]
    split
    · exact ⟨a, h, h'⟩
    · exact ih (h.step m) (h'.step m)

theorem Lockstep.runFor_alike (h : Lockstep r a) (h' : Lockstep r' a) (limit : Nat) :
    (m.runFor limit r).1 = (m.runFor limit r').1 ∧
      m.Alike (m.runFor limit r).2 (m.runFor limit r').2 := by
  obtain ⟨b, hb, hb'⟩ := h.advance (m := m) h' limit
  have halike := (hb.shows (m := m)).alike hb'.shows
  refine ⟨?_, halike⟩
  unfold runFor
  dsimp only
  rw [halike.halted, halike.verdict]

theorem steps_in_lockstep (m : Dtm S C) (t : Tape C) (n : Nat) :
    (∀ head : Int, m.Shows (m.afterSteps n (m.startRun t))
      ((attempt m.rules)^[n] (⟨m.start, head, fun i => t.cell (i - head)⟩, 0))) ∧
    (∀ i j i' j', m.Alike (m.afterSteps n (m.startRun (t.pad i j)))
        (m.afterSteps n (m.startRun (t.pad i' j'))) ∧
      (m.runFor n (m.startRun (t.pad i j))).1 = (m.runFor n (m.startRun (t.pad i' j'))).1 ∧
      m.Alike (m.runFor n (m.startRun (t.pad i j))).2 (m.runFor n (m.startRun (t.pad i' j'))).2) := by
  have hstart (u : Tape C) (head : Int) :
      Lockstep (m.startRun u) (⟨m.start, head, fun i => u.cell (i - head)⟩, 0) :=
    ⟨.start m.start u head, rfl⟩
  refine ⟨fun head => ((hstart t head).afterSteps m n).shows, fun i j i' j' => ?_⟩
  have h := hstart (t.pad i j) 0
  have h' := hstart (t.pad i' j') 0
  rw [Tape.cell_pad] at h h'
  exact ⟨(h.afterSteps m n).shows.alike (h'.afterSteps m n).shows, h.runFor_alike h' n⟩

end Dtm

end TableMachines
