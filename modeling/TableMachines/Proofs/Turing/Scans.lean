import TableMachines.Proofs.Turing.Limits

/-!
Runs put together from scans. On a scan the head travels over a word in one direction, overwrites
the cells of the word and may change its state on the way.
-/

namespace TableMachines.Dtm

open Tape

variable {S C : Type} [Ordered S] [Ordered C]

def lookup? (m : Dtm S C) (s : S) (a : C) : Option (TuringRule S C) :=
  m.rules.find? fun r => decide (r.source = s ∧ r.scanned = a)

/-- In state `s` on symbol `a` the machine goes on: it writes `b`, moves the head and enters `t`. -/
def Acts (m : Dtm S C) (s : S) (a : C) (t : S) (b : C) (d : Direction) : Prop :=
  s ∉ m.accept ∧ m.lookup? s a = some ⟨s, a, t, b, d⟩

instance (m : Dtm S C) (s : S) (a : C) (t : S) (b : C) (d : Direction) :
    Decidable (m.Acts s a t b d) :=
  inferInstanceAs (Decidable (_ ∧ _))

inductive Reaches (m : Dtm S C) : Nat → TuringConfig S C → TuringConfig S C → Prop
  | refl (k : TuringConfig S C) : Reaches m 0 k k
  | head {n : Nat} {k l k' : TuringConfig S C} : m.accepting k = false →
      m.rules.nextTuring? k = some l → Reaches m n l k' → Reaches m (n + 1) k k'

/-- The nearest cell comes first: the word, the states before and after it and what is written over it. -/
inductive Scan (m : Dtm S C) (d : Direction) : S → List C → S → List C → Prop
  | nil (s : S) : Scan m d s [] s []
  | cons {s t u : S} {a b : C} {v w : List C} :
      m.Acts s a t b d → Scan m d t v u w → Scan m d s (a :: v) u (b :: w)

variable {m : Dtm S C} {n n' : Nat} {k l k' : TuringConfig S C} {s t u : S} {a b : C}
  {v v' w w' : List C} {d : Direction}

theorem nextTuring?_eq (m : Dtm S C) (k : TuringConfig S C) :
    m.rules.nextTuring? k = (m.lookup? k.state k.tape.scanned).map (Rule.follow · k) := by
  have hfind : m.rules.ruleFor? k (some k.tape.scanned) = m.lookup? k.state k.tape.scanned := by
    unfold Table.ruleFor? lookup?
    congr 1
    funext r
    apply decide_eq_decide.2
    constructor
    · rintro ⟨_, hs, ha⟩
      exact ⟨hs, ha⟩
    · rintro ⟨hs, ha⟩
      exact ⟨congrArg some ha, hs, ha⟩
  rw [Table.nextTuring?, Table.next?, hfind]

theorem halted_of_lookup?_eq_none (h : m.lookup? k.state k.tape.scanned = none) :
    m.halted k = true := by
  rw [halted_iff_no_rule, nextTuring?_eq, h]
  exact .inr rfl

theorem Reaches.trans (h : m.Reaches n k l) (h' : m.Reaches n' l k') :
    m.Reaches (n + n') k k' := by
  induction h with
  | refl k =>
    rw [Nat.zero_add]
    exact h'
  | head hacc hnext _ ih =>
    rw [Nat.add_right_comm]
    exact .head hacc hnext (ih h')

theorem Reaches.afterSteps (h : m.Reaches n k k') (steps : Nat) :
    m.afterSteps n ⟨k, steps⟩ = ⟨k', steps + n⟩ := by
  induction h generalizing steps with
  | refl k => rfl
  | head _ hnext _ ih =>
    rw [afterSteps_succ, step_of_some hnext, ih, Nat.add_right_comm]
    rfl

theorem Reaches.advance (h : m.Reaches n k k') (steps : Nat) :
    m.advance n ⟨k, steps⟩ = ⟨k', steps + n⟩ := by
  induction h generalizing steps with
  | refl k => rfl
  | head hacc hnext _ ih =>
    rw [advance_of_next hacc hnext, ih, Nat.add_right_comm]
    rfl

theorem Reaches.haltsAfter (h : m.Reaches n k k') (hk' : m.halted k' = true) (steps : Nat) :
    m.HaltsAfter ⟨k, steps⟩ n := by
  apply haltsAfter_iff.2
  constructor
  · rw [h.afterSteps]
    exact hk'
  · induction h generalizing steps with
    | refl k => exact fun i hi => absurd hi (Nat.not_lt_zero i)
    | head hacc hnext _ ih =>
      intro i hi
      cases i with
      | zero =>
        rw [halted_iff_no_rule]
        simp [Dtm.afterSteps, hacc, hnext]
      | succ i =>
        rw [afterSteps_succ, step_of_some hnext]
        exact ih hk' (steps + 1) i (by omega)

theorem Acts.reaches (h : m.Acts s a t b d) (left right : List C) (blank : C) :
    m.Reaches 1 ⟨s, ⟨left, a, right, blank⟩⟩ ⟨t, (Tape.mk left b right blank).move d⟩ := by
  have hnext : m.rules.nextTuring? ⟨s, ⟨left, a, right, blank⟩⟩ =
      some ⟨t, (Tape.mk left b right blank).move d⟩ := by
    rw [nextTuring?_eq, h.2]
    rfl
  exact .head (by simpa [accepting] using h.1) hnext (.refl _)

theorem Acts.right (h : m.Acts s a t b .right) (left right : List C) (blank : C) :
    m.Reaches 1 ⟨s, ⟨left, a, right, blank⟩⟩ ⟨t, atRight blank (b :: left) right⟩ := by
  have hmove := h.reaches left right blank
  rwa [Tape.move, moveRight_eq] at hmove

theorem Acts.left (h : m.Acts s a t b .left) (left right : List C) (blank : C) :
    m.Reaches 1 ⟨s, ⟨left, a, right, blank⟩⟩ ⟨t, atLeft blank left (b :: right)⟩ := by
  have hmove := h.reaches left right blank
  rwa [Tape.move, moveLeft_eq] at hmove

theorem Scan.append (h : m.Scan d s v t v') (h' : m.Scan d t w u w') :
    m.Scan d s (v ++ w) u (v' ++ w') := by
  induction h with
  | nil s => exact h'
  | cons hacts _ ih => exact .cons hacts (ih h')

theorem Scan.map (f : C → C) (h : ∀ a ∈ v, m.Acts s a s (f a) d) : m.Scan d s v s (v.map f) := by
  induction v with
  | nil => exact .nil s
  | cons a v ih =>
    apply Scan.cons (h a List.mem_cons_self)
    exact ih fun b hb => h b (List.mem_cons_of_mem a hb)

theorem Scan.keep (h : ∀ a ∈ v, m.Acts s a s a d) : m.Scan d s v s v := by
  simpa using Scan.map id h

theorem Scan.keep_of_mem {l : List C} (hl : (l.all fun a => m.Acts s a s a d) = true)
    (hv : ∀ a ∈ v, a ∈ l) : m.Scan d s v s v := by
  apply Scan.keep
  intro a ha
  exact of_decide_eq_true (List.all_eq_true.1 hl a (hv a ha))

theorem Scan.replicate (h : m.Acts s a s b d) (n : Nat) :
    m.Scan d s (List.replicate n a) s (List.replicate n b) := by
  have hall : ∀ x ∈ List.replicate n a, m.Acts s x s b d := by
    intro x hx
    rwa [List.eq_of_mem_replicate hx]
  simpa using Scan.map (fun _ => b) hall

theorem Scan.right (h : m.Scan .right s v t w) (left right : List C) (blank : C) :
    m.Reaches v.length ⟨s, atRight blank left (v ++ right)⟩
      ⟨t, atRight blank (w.reverse ++ left) right⟩ := by
  induction h generalizing left with
  | nil s => exact .refl _
  | cons hacts _ ih =>
    have hrest := (hacts.right left _ blank).trans (ih (_ :: left))
    rw [List.length_cons, List.reverse_cons, List.append_assoc, Nat.add_comm]
    exact hrest

theorem Scan.left (h : m.Scan .left s v t w) (left right : List C) (blank : C) :
    m.Reaches v.length ⟨s, atLeft blank (v ++ left) right⟩
      ⟨t, atLeft blank left (w.reverse ++ right)⟩ := by
  induction h generalizing right with
  | nil s => exact .refl _
  | cons hacts _ ih =>
    have hrest := (hacts.left _ right blank).trans (ih (_ :: right))
    rw [List.length_cons, List.reverse_cons, List.append_assoc, Nat.add_comm]
    exact hrest

section Input

variable {tape : Tape C} (h : m.Reaches n ⟨m.start, tape⟩ k) (hk : m.halted k = true)
include h hk

theorem Reaches.run?_startRun (bound : Nat) : m.run? bound (m.startRun tape) =
    if n ≤ bound then some (m.verdict k, ⟨k, n⟩) else none := by
  have hend : m.afterSteps n (m.startRun tape) = ⟨k, n⟩ := by
    have hafter := h.afterSteps 0
    rwa [Nat.zero_add] at hafter
  have hrun := run?_of_haltsAfter (h.haltsAfter hk 0) bound
  rwa [← startRun, hend] at hrun

theorem Reaches.accepts (limit : Nat) : m.accepts tape limit =
    if n ≤ limit then .ok (m.accepting k) else .error (.stepLimitExceeded limit) := by
  have hhalts : m.HaltsAfter (m.startRun tape) n := h.haltsAfter hk 0
  unfold Dtm.accepts
  by_cases hn : n ≤ limit
  · have hend : (m.afterSteps n (m.startRun tape)).config = k := congrArg Run.config (h.afterSteps 0)
    rw [runFor_of_haltsAfter hhalts hn, if_pos hn, verdict, hend]
    cases hacc : m.accepting k with
    | true => simp [Except.map]
    | false => simp [Except.map]
  · have hno : ∀ j ≤ limit, ¬ m.HaltsAfter (m.startRun tape) j := by
      intro j hle hearly
      have hleast : n ≤ j := hhalts.2 hearly.1
      omega
    rw [runFor_of_no_halt hno, if_neg hn]
    rfl

end Input

end TableMachines.Dtm
