import Mathlib.Computability.ContextFreeGrammar

namespace TableMachines

section Leftmost

variable {T N : Type}

/-- The symbols become the word when the first of them is replaced or read again and again. -/
inductive Parses (rules : Finset (ContextFreeRule T N)) : List (Symbol T N) → List T → Prop
  | nil : Parses rules [] []
  | read {l : List (Symbol T N)} {w : List T} (t : T) :
      Parses rules l w → Parses rules (.terminal t :: l) (t :: w)
  | expand {r : ContextFreeRule T N} {l : List (Symbol T N)} {w : List T} :
      r ∈ rules → Parses rules (r.output ++ l) w → Parses rules (.nonterminal r.input :: l) w

variable {rules : Finset (ContextFreeRule T N)} {l l' p : List (Symbol T N)} {w : List T}

theorem parses_terminals (w : List T) : Parses rules (w.map .terminal) w := by
  induction w with
  | nil => exact .nil
  | cons t w ih => exact .read t ih

theorem Parses.replace (h : Parses rules (p ++ l) w)
    (hl : ∀ w, Parses rules l w → Parses rules l' w) : Parses rules (p ++ l') w := by
  generalize hs : p ++ l = s at h
  -- the parse uses `p` up, or replaces its first symbol, before it comes to what changes
  induction h generalizing p with
  | nil =>
    obtain ⟨rfl, rfl⟩ := List.append_eq_nil_iff.1 hs
    exact hl [] .nil
  | @read s w t h ih =>
    cases p with
    | nil =>
      rw [List.nil_append] at hs
      exact hl (t :: w) (hs ▸ h.read t)
    | cons x p =>
      cases hs
      exact (ih rfl).read t
  | @expand r s w hr h ih =>
    cases p with
    | nil =>
      rw [List.nil_append] at hs
      exact hl w (hs ▸ h.expand hr)
    | cons x p =>
      cases hs
      have hrest := @ih (r.output ++ p) (List.append_assoc ..)
      rw [List.append_assoc] at hrest
      exact hrest.expand hr

variable {g : ContextFreeGrammar T} {u v : List (Symbol T g.NT)}

theorem derives_of_parses (h : Parses g.rules u w) : g.Derives u (w.map .terminal) := by
  induction h with
  | nil => exact .refl []
  | read t _ ih => exact ih.append_left [.terminal t]
  | @expand r l w hr _ ih => exact .head ⟨r, hr, .head l⟩ ih

theorem parses_of_produces (h : g.Produces u v) (hv : Parses g.rules v w) : Parses g.rules u w := by
  obtain ⟨r, hr, hrewrites⟩ := h
  obtain ⟨p, q, rfl, rfl⟩ := hrewrites.exists_parts
  rw [List.append_assoc] at hv ⊢
  exact hv.replace fun w hw => hw.expand hr

theorem derives_iff_parses : g.Derives u (w.map .terminal) ↔ Parses g.rules u w := by
  constructor
  · intro h
    induction h using Relation.ReflTransGen.head_induction_on with
    | refl => exact parses_terminals w
    | head hstep _ ih => exact parses_of_produces hstep ih
  · exact derives_of_parses

end Leftmost

namespace Catalog

inductive Phrase where
  | statement
  | loop
  | assignment
  | expression
  | comparison
  | product
  | term
  deriving DecidableEq

open Phrase Symbol in
def phraseRules : List (ContextFreeRule Char Phrase) :=
  [⟨statement, [nonterminal loop]⟩,
    ⟨statement, [nonterminal assignment]⟩,
    ⟨loop, [terminal 'w', terminal '(', nonterminal expression, terminal ')', terminal '\x7b',
      nonterminal statement, terminal '\x7d']⟩,
    ⟨assignment, [terminal 'v', terminal '=', nonterminal expression]⟩,
    ⟨expression, [nonterminal comparison]⟩,
    ⟨comparison, [nonterminal product, terminal '<', nonterminal comparison]⟩,
    ⟨comparison, [nonterminal product]⟩,
    ⟨product, [nonterminal term, terminal '*', nonterminal product]⟩,
    ⟨product, [nonterminal term]⟩,
    ⟨term, [terminal 'n']⟩,
    ⟨term, [terminal 'v']⟩]

def smallLanguage : ContextFreeGrammar Char where
  NT := Phrase
  initial := .statement
  rules := phraseRules.toFinset

theorem mem_smallLanguage_iff {w : List Char} : w ∈ smallLanguage.language ↔
    Parses phraseRules.toFinset [.nonterminal .statement] w :=
  derives_iff_parses

end Catalog

end TableMachines
