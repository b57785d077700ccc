import TableMachines.Catalog.Tables
import TableMachines.Proofs.Catalog.SmallLanguage
import TableMachines.Proofs.Pushdown.Descent
import TableMachines.Proofs.Pushdown.Moves

namespace TableMachines.Catalog

open PushdownRule SortedSet Table

def Phrase.letter : Phrase → Char
  | statement => 'S'
  | loop => 'W'
  | assignment => 'A'
  | expression => 'E'
  | comparison => 'L'
  | product => 'M'
  | term => 'T'

def stackLetter : Symbol Char Phrase → Char
  | .terminal t => t
  | .nonterminal p => p.letter

/-- No terminal among them is written as a nonterminal is, or as the bottom of the stack. -/
def stackSymbols : List (Symbol Char Phrase) :=
  tokens.map .terminal ++
    [.nonterminal .statement, .nonterminal .loop, .nonterminal .assignment,
      .nonterminal .expression, .nonterminal .comparison, .nonterminal .product,
      .nonterminal .term]

def stackOf (l : List (Symbol Char Phrase)) : List Char :=
  l.map stackLetter ++ [simpleParser.bottom]

/-- No nonterminal begins, however it is replaced, with itself. -/
def parserWeight (s : UInt32) (b : Char) : Nat :=
  if s = 1 then 9
  else if s = 2 then 8 - ['S', 'W', 'A', 'E', 'L', 'M', 'T'].idxOf b
  else 0

theorem descends_parserWeight : Descends simpleParser.rules parserWeight := by
  unfold Descends
  decide

theorem parserWeight_le (s : UInt32) (b : Char) : parserWeight s b ≤ 9 := by
  unfold parserWeight
  split_ifs
  · exact le_rfl
  · omega
  · omega

variable {l : List (Symbol Char Phrase)} {a : Option Char} {t : Char} {w rest : List Char}
  {c d : UInt32 × List Char}

theorem mem_simpleParser_rules {r : PushdownRule UInt32 Char} : r ∈ simpleParser.rules ↔
    r = ⟨1, none, 2, '$', ['S', '$']⟩ ∨ r = ⟨2, none, 3, '$', ['$']⟩ ∨
      (∃ p ∈ productions, r = ⟨2, none, 2, p.1, p.2⟩) ∨
        ∃ t ∈ tokens, r = ⟨2, some t, 2, t, []⟩ := by
  simp [simpleParser, pushdown, eq_comm]

theorem mem_stackSymbols_of_mem_output : ∀ r ∈ phraseRules, ∀ x ∈ r.output, x ∈ stackSymbols := by
  decide

theorem mem_productions_of_mem_phraseRules :
    ∀ r ∈ phraseRules, (r.input.letter, r.output.map stackLetter) ∈ productions := by
  decide

theorem exists_phraseRule : ∀ x ∈ stackSymbols, ∀ p ∈ productions, stackLetter x = p.1 →
    ∃ r ∈ phraseRules, x = .nonterminal r.input ∧ p.2 = r.output.map stackLetter := by
  decide

theorem mem_tokens_of_mem_stackSymbols (h : .terminal t ∈ stackSymbols) : t ∈ tokens := by
  simpa [stackSymbols] using h

theorem eq_terminal_of_stackLetter :
    ∀ x ∈ stackSymbols, stackLetter x ∈ tokens → x = .terminal (stackLetter x) := by
  decide

theorem stackLetter_ne_bottom : ∀ x ∈ stackSymbols, stackLetter x ≠ '$' := by
  decide

theorem production_ne_bottom : ∀ p ∈ productions, '$' ≠ p.1 := by
  decide

theorem bottom_not_mem_tokens : '$' ∉ tokens := by
  decide

theorem mem_stackSymbols_of_expand {r : ContextFreeRule Char Phrase} (hr : r ∈ phraseRules)
    (h : ∀ x ∈ .nonterminal r.input :: l, x ∈ stackSymbols) :
    ∀ x ∈ r.output ++ l, x ∈ stackSymbols := by
  intro x hx
  rcases List.mem_append.1 hx with hx | hx
  · exact mem_stackSymbols_of_mem_output r hr x hx
  · exact h x (List.mem_cons_of_mem _ hx)

theorem move_start : Move simpleParser.rules (1, ['$']) none (2, stackOf [.nonterminal .statement]) :=
  .mk [] (mem_simpleParser_rules.2 (.inl rfl))

theorem move_stop : Move simpleParser.rules (2, stackOf []) none (3, stackOf []) :=
  .mk [] (mem_simpleParser_rules.2 (.inr (.inl rfl)))

theorem move_expand {r : ContextFreeRule Char Phrase} (hr : r ∈ phraseRules) :
    Move simpleParser.rules (2, stackOf (.nonterminal r.input :: l)) none
      (2, stackOf (r.output ++ l)) := by
  have hp := mem_productions_of_mem_phraseRules r hr
  rw [stackOf, stackOf, List.map_append, List.append_assoc]
  exact .mk (stackOf l) (mem_simpleParser_rules.2 (.inr (.inr (.inl ⟨_, hp, rfl⟩))))

theorem move_read (ht : t ∈ tokens) :
    Move simpleParser.rules (2, stackOf (.terminal t :: l)) (some t) (2, stackOf l) :=
  .mk (stackOf l) (mem_simpleParser_rules.2 (.inr (.inr (.inr ⟨t, ht, rfl⟩))))

theorem eq_of_move_start (h : Move simpleParser.rules (1, ['$']) a d) :
    a = none ∧ d = (2, stackOf [.nonterminal .statement]) := by
  generalize hc : ((1 : UInt32), ['$']) = c at h
  obtain @⟨r, rest, hr⟩ := h
  rcases mem_simpleParser_rules.1 hr with rfl | rfl | ⟨p, hp, rfl⟩ | ⟨t, ht, rfl⟩
  · cases hc
    exact ⟨rfl, rfl⟩
  · simp at hc
  · simp at hc
  · simp at hc

theorem not_move_stopped (rest : List Char) : ¬ Move simpleParser.rules (3, rest) a d := by
  intro h
  generalize hc : ((3 : UInt32), rest) = c at h
  obtain @⟨r, rest, hr⟩ := h
  have hsource : ∀ r ∈ simpleParser.rules, r.source ≠ 3 := by decide
  exact hsource r hr (congrArg Prod.fst hc).symm

theorem move_cases (hl : ∀ x ∈ l, x ∈ stackSymbols)
    (h : Move simpleParser.rules (2, stackOf l) a d) :
    (l = [] ∧ a = none ∧ d = (3, stackOf [])) ∨
      (∃ r ∈ phraseRules, ∃ l', l = .nonterminal r.input :: l' ∧ a = none ∧
        d = (2, stackOf (r.output ++ l'))) ∨
      ∃ t l', l = .terminal t :: l' ∧ a = some t ∧ d = (2, stackOf l') := by
  generalize hc : ((2 : UInt32), stackOf l) = c at h
  obtain @⟨r, rest, hr⟩ := h
  obtain ⟨hsource, hstack⟩ := Prod.mk.inj hc
  rcases mem_simpleParser_rules.1 hr with rfl | rfl | ⟨p, hp, rfl⟩ | ⟨t, ht, rfl⟩
  · exact absurd hsource (by decide)
  · cases l with
    | nil =>
      obtain ⟨-, rfl⟩ := List.cons.inj hstack
      exact .inl ⟨rfl, rfl, rfl⟩
    | cons x l =>
      have hx := stackLetter_ne_bottom x (hl x List.mem_cons_self)
      exact absurd (List.cons.inj hstack).1 hx
  · cases l with
    | nil => exact absurd (List.cons.inj hstack).1 (production_ne_bottom p hp)
    | cons x l =>
      obtain ⟨hletter, rfl⟩ := List.cons.inj hstack
      obtain ⟨r, hr, rfl, hbody⟩ := exists_phraseRule x (hl x List.mem_cons_self) p hp hletter
      refine .inr (.inl ⟨r, hr, l, rfl, rfl, ?_⟩)
      rw [hbody, stackOf, List.map_append, List.append_assoc]
      rfl
  · cases l with
    | nil =>
      have hbottom : '$' = t := (List.cons.inj hstack).1
      exact absurd (hbottom ▸ ht) bottom_not_mem_tokens
    | cons x l =>
      obtain ⟨hletter, rfl⟩ := List.cons.inj hstack
      cases hletter
      have hx := eq_terminal_of_stackLetter x (hl x List.mem_cons_self) ht
      exact .inr (.inr ⟨stackLetter x, l, congrArg (· :: l) hx, rfl, rfl⟩)

theorem moves_of_parses (hl : ∀ x ∈ l, x ∈ stackSymbols) (h : Parses phraseRules.toFinset l w) :
    Moves simpleParser.rules (2, stackOf l) w (3, stackOf []) := by
  induction h with
  | nil => exact .head move_stop (.refl _)
  | read t _ ih =>
    have ht := mem_tokens_of_mem_stackSymbols (hl _ List.mem_cons_self)
    exact .head (move_read ht) (ih fun x hx => hl x (List.mem_cons_of_mem _ hx))
  | expand hr _ ih =>
    have hr := List.mem_toFinset.1 hr
    exact .head (move_expand hr) (ih (mem_stackSymbols_of_expand hr hl))

theorem parses_of_moves (hl : ∀ x ∈ l, x ∈ stackSymbols)
    (h : Moves simpleParser.rules (2, stackOf l) w (3, rest)) : Parses phraseRules.toFinset l w := by
  generalize hc : ((2 : UInt32), stackOf l) = c at h
  generalize he : ((3 : UInt32), rest) = e at h
  induction h generalizing l with
  | refl =>
    have hstate := congrArg Prod.fst (hc.trans he.symm)
    exact absurd hstate (by decide : (2 : UInt32) ≠ 3)
  | @head c d e a w hmove hrest ih =>
    subst hc
    rcases move_cases hl hmove with ⟨rfl, rfl, rfl⟩ | ⟨r, hr, l, rfl, rfl, rfl⟩ | ⟨t, l, rfl, rfl, rfl⟩
    · cases hrest with
      | refl => exact .nil
      | head hmove => exact absurd hmove (not_move_stopped _)
    · have hparse := ih (mem_stackSymbols_of_expand hr hl) rfl he
      exact .expand (List.mem_toFinset.2 hr) hparse
    · have hparse := ih (fun x hx => hl x (List.mem_cons_of_mem _ hx)) rfl he
      exact .read t hparse

theorem exists_moves_iff : (∃ rest, Moves simpleParser.rules (1, ['$']) w (3, rest)) ↔
    w ∈ smallLanguage.language := by
  have hstart : ∀ x ∈ [Symbol.nonterminal .statement], x ∈ stackSymbols := by decide
  rw [mem_smallLanguage_iff]
  constructor
  · rintro ⟨rest, h⟩
    generalize he : ((3 : UInt32), rest) = e at h
    cases h with
    | refl => exact absurd (congrArg Prod.fst he) (by decide : (3 : UInt32) ≠ 1)
    | head hmove hrest =>
      obtain ⟨rfl, rfl⟩ := eq_of_move_start hmove
      exact parses_of_moves hstart (he ▸ hrest)
  · intro h
    exact ⟨stackOf [], .head move_start (moves_of_parses hstart h)⟩

theorem simpleParser_decides (w : List Char) :
    ∃ entry, lookup "simple-parser" = .ok entry ∧ entry.machine = .npda simpleParser ∧
      (∀ p, ∃ q, (∀ bound, 10 ≤ bound → simpleParser.closed? bound p = some q) ∧
        ∀ k, k ∈ q ↔ ∃ k₀ ∈ p, Leads (successors simpleParser.rules none) k₀ k) ∧
      ∃ b, (∀ bound, 10 ≤ bound → entry.machine.accepts? bound w = some (.ok b)) ∧
        (b = true ↔ w ∈ smallLanguage.language) := by
  refine ⟨_, rfl, rfl, fun p => ?_, ?_⟩
  · obtain ⟨q, hq⟩ := Npda.exists_closed?_of_descends descends_parserWeight parserWeight_le p
    refine ⟨q, hq, fun k => ?_⟩
    rw [Npda.mem_closed? (hq 10 (Nat.lt_succ_self 9))]
    simp only [spells_nil_iff]
  · obtain ⟨b, hb, hiff⟩ := Npda.exists_accepts?_of_descends descends_parserWeight parserWeight_le w
    refine ⟨b, fun bound hbound => congrArg (Option.map Except.ok) (hb bound hbound), hiff.trans ?_⟩
    rw [Npda.exists_accept_spells_iff, ← exists_moves_iff]
    constructor
    · rintro ⟨s, hs, rest, h⟩
      obtain rfl : s = 3 := SortedSet.mem_singleton.1 hs
      exact ⟨rest, h⟩
    · rintro ⟨rest, h⟩
      exact ⟨3, SortedSet.mem_singleton.2 rfl, rest, h⟩

end TableMachines.Catalog
