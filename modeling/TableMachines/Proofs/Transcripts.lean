import Mathlib.Data.List.Forall2
import TableMachines.Catalog.Tables
import TableMachines.Proofs.Automaton.Transcript
import TableMachines.Proofs.Turing.Transcript
import TableMachines.Subset.Event

namespace TableMachines

variable {S C : Type} [Ordered S] [Ordered C] [Inspect S] [Inspect C]

def Nfa.TellsRule (m : Nfa S C) (r : FiniteRule (SortedSet S) C) (e : SubsetEvent S C) : Prop :=
  ∃ a s, r.trigger = some a ∧ m.closed s = r.target ∧ e = .read (.advanced a s) ∧
    (Event.entry e).level = .trace ∧ (Event.entry e).message = "nfa step"

theorem Nfa.tellsRules_rulesFrom (m : Nfa S C) (p : SortedSet S) :
    List.Forall₂ m.TellsRule (m.rulesFrom p)
      (m.alphabet.toList.flatMap fun a => (m.note p a).map .read) := by
  simp only [rulesFrom, note, List.map_cons, List.map_nil, ← List.map_eq_flatMap]
  rw [List.forall₂_map_left_iff, List.forall₂_map_right_iff]
  apply List.forall₂_same.2
  intro a _
  exact ⟨a, m.read p a, rfl, rfl, rfl, rfl, rfl⟩

theorem Nfa.exists_tellsRules (m : Nfa S C) : ∃ reads states accepting rules,
    m.determinizeNotes = reads ++ [.complete states accepting rules] ∧
      List.Forall₂ m.TellsRule m.determinize.rules reads := by
  refine ⟨_, _, _, _, rfl, ?_⟩
  let sets := m.discovered (m.closed {m.start})
  have hsets : List.Forall₂ Eq sets sets := List.forall₂_refl sets
  apply List.rel_flatMap hsets
  rintro p _ rfl
  exact m.tellsRules_rulesFrom p

theorem transcripts_faithful :
    (∀ (m : Dfa S C) (p z : Control S) (w : List C), m.run? p w = some z →
      ∃ log, m.transcript? p w = some log ∧ m.automaton.Faithful m.Tells p w log) ∧
    (∀ (m : Nfa S C) (p : SortedSet S) (w : List C),
      m.automaton.Faithful Nfa.Tells p w (m.transcript p w)) ∧
    (∀ (m : Dpda S C) (bound : Nat) (p z : PushdownConfig S C) (w : List C),
      m.run? bound p w = some z → ∃ log, m.transcript? bound p w = some log ∧
        (m.automaton bound).Faithful (m.Tells bound) p w log) ∧
    (∀ (m : Npda S C) (bound : Nat) (p z : SortedSet (PushdownConfig S C)) (w : List C),
      m.run? bound p w = some z → ∃ log, m.transcript? bound p w = some log ∧
        (m.automaton bound).Faithful Npda.Tells p w log) ∧
    (∀ (m : Dtm S C) (limit : Nat) (r : Dtm.Run S C), ∃ moves rest, m.Logged limit r moves rest) ∧
    ∀ m : Nfa S C, ∃ reads states accepting rules,
      m.determinizeNotes = reads ++ [.complete states accepting rules] ∧
        List.Forall₂ m.TellsRule m.determinize.rules reads := by
  refine ⟨?_, ?_, ?_, ?_, Dtm.exists_logged, Nfa.exists_tellsRules⟩
  · intro m p z w hrun
    exact m.notesReads.exists_faithful hrun
  · intro m p w
    obtain ⟨log, hlog, hfaithful⟩ := m.notesReads.exists_faithful (p := p) (w := w) rfl
    have htranscript : m.transcript p w = log := hlog
    rwa [htranscript]
  · intro m bound p z w hrun
    exact (m.notesReads bound).exists_faithful hrun
  · intro m bound p z w hrun
    exact (m.notesReads bound).exists_faithful hrun

theorem transcripts_faithful_foreign :
    let d := Catalog.containsAb
    let p := Catalog.balancedParentheses
    let n := Catalog.evenPalindrome
    (∃ log, d.transcript? (.active 1) ['a', 'c', 'b'] = some log ∧
      d.automaton.Faithful d.Tells (.active 1) ['a', 'c', 'b'] log) ∧
    (∃ log, p.transcript? 1 p.startConfig ['(', 'c', ')'] = some log ∧
      (p.automaton 1).Faithful (p.Tells 1) p.startConfig ['(', 'c', ')'] log) ∧
    ∃ log, n.transcript? 3 {n.startConfig} ['m', 'a'] = some log ∧
      (n.automaton 3).Faithful Npda.Tells {n.startConfig} ['m', 'a'] log := by
  intro d p n
  obtain ⟨hdfa, -, hdpda, hnpda, -⟩ := transcripts_faithful (S := UInt32) (C := Char)
  refine ⟨?_, ?_, ?_⟩
  · exact hdfa d (.active 1) .stuck ['a', 'c', 'b'] (by decide)
  · exact hdpda p 1 p.startConfig ⟨.stuck, ⟨['b', '$']⟩⟩ ['(', 'c', ')'] (by decide)
  · exact hnpda n 3 {n.startConfig} ∅ ['m', 'a'] (by decide)

example : Catalog.containsAb.transcript? (.active 1) ['a', 'c', 'b'] =
    some [.moved 1 'a' 2, .stuck 2 'c'] := by rfl

end TableMachines
