import Mathlib.Data.List.Shortlex
import TableMachines.Proofs.Subset.Discovery

namespace TableMachines

section Shortlex

variable {C : Type} [Ordered C] {a b : C} {u v w : List C}

def Shortlex (v w : List C) : Prop :=
  List.Shortlex (fun a b => compare a b = .lt) v w

instance isStrictTotalOrder_compare : IsStrictTotalOrder C fun a b => compare a b = .lt where
  irrefl a h := by simp [Std.ReflOrd.compare_self] at h
  trans _ _ _ := Std.TransCmp.lt_trans
  trichotomous a b hab hba := by
    cases h : compare a b with
    | lt => exact absurd h hab
    | eq => exact Std.LawfulEqOrd.eq_of_compare h
    | gt => exact absurd (Std.OrientedCmp.gt_iff_lt.1 h) hba

theorem Shortlex.trans (huv : Shortlex u v) (hvw : Shortlex v w) : Shortlex u w := by
  have : IsStrictTotalOrder (List C) (List.Lex fun a b => compare a b = .lt) :=
    { isStrictWeakOrder_of_isOrderConnected with }
  have hpairs : IsTrans (Nat × List C) (Prod.Lex (· < ·) (List.Lex fun a b => compare a b = .lt)) :=
    inferInstance
  exact hpairs.trans _ _ _ huv hvw

theorem Shortlex.irrefl (w : List C) : ¬Shortlex w w := fun h =>
  List.Shortlex.asymm.asymm w w h h

theorem shortlex_trichotomy (v w : List C) : Shortlex v w ∨ v = w ∨ Shortlex w v :=
  trichotomous_of (List.Shortlex fun a b : C => compare a b = .lt) v w

theorem nil_shortlex (w : List C) : w = [] ∨ Shortlex [] w :=
  (List.shortlex_nil_or_eq_nil w).symm

theorem shortlex_concat (w : List C) (a : C) : Shortlex w (w ++ [a]) := by
  apply List.Shortlex.of_length_lt
  simp

theorem Shortlex.last (h : compare a b = .lt) (w : List C) : Shortlex (w ++ [a]) (w ++ [b]) := by
  apply List.Shortlex.append_left
  rwa [List.shortlex_singleton_iff]

theorem lex_concat {α : Type} {r : α → α → Prop} {k l : List α} (h : List.Lex r k l)
    (hlen : k.length = l.length) (a b : α) : List.Lex r (k ++ [a]) (l ++ [b]) := by
  induction h with
  | nil => simp at hlen
  | rel h => exact .rel h
  | cons _ ih => exact .cons (ih (Nat.succ.inj hlen))

theorem Shortlex.concat (h : Shortlex v w) (a b : C) : Shortlex (v ++ [a]) (w ++ [b]) := by
  rcases List.shortlex_def.1 h with hlen | ⟨hlen, hlex⟩
  · apply List.Shortlex.of_length_lt
    simpa using hlen
  · apply List.Shortlex.of_lex
    · simpa using hlen
    · exact lex_concat hlex hlen a b

end Shortlex

namespace Nfa

open SortedSet Table

variable {S C : Type} [Ordered S] [Ordered C] {m : Nfa S C} {p q : SortedSet S}
  {seen : Std.TreeSet (SortedSet S)} {done waiting new : List (List C)} {u v w : List C} {a : C}

structure LeastWord (m : Nfa S C) (p q : SortedSet S) (w : List C) : Prop where
  letters : ∀ a ∈ w, a ∈ m.alphabet
  leads : w.foldl m.successor p = q
  least : ∀ v, (∀ a ∈ v, a ∈ m.alphabet) → v.foldl m.successor p = q → v = w ∨ Shortlex w v

theorem exists_symbols (m : Nfa S C) (q : SortedSet S) (seen : Std.TreeSet (SortedSet S)) :
    ∃ symbols : List C, Increasing symbols ∧
      (m.expansion q seen).1 = symbols.map (m.successor q) ∧
        ∀ a ∈ symbols, a ∈ m.alphabet ∧ m.successor q a ∉ seen ∧
          ∀ b ∈ m.alphabet, m.successor q b = m.successor q a → b = a ∨ compare a b = .lt := by
  obtain ⟨symbols, hsub, hfound, hfirst⟩ :=
    exists_fresh_map m.alphabet.sorted (m.successor q) seen
  refine ⟨symbols, m.alphabet.sorted.sublist hsub, ?_, fun a ha => ⟨hsub.subset ha, hfirst a ha⟩⟩
  rw [← hfound, expansion, rulesFrom, List.map_map]
  rfl

theorem mem_expansion_snd :
    q ∈ (m.expansion p seen).2 ↔ q ∈ seen ∨ q ∈ (m.expansion p seen).1 := by
  rw [expansion, mem_fresh_snd, mem_fresh_fst]
  by_cases h : q ∈ seen <;> simp [h]

/-- The least words of the sets that are expanded and of those in the queue. They increase, and all
of them are smaller than the words that the queue will add. -/
structure Ranked (m : Nfa S C) (p : SortedSet S) (done waiting : List (List C))
    (seen : Std.TreeSet (SortedSet S)) : Prop where
  increasing : (done ++ waiting).Pairwise Shortlex
  ahead : ∀ w ∈ done ++ waiting, ∀ u ∈ waiting, ∀ a, Shortlex w (u ++ [a])
  least : ∀ w ∈ done ++ waiting, m.LeastWord p (w.foldl m.successor p) w
  nil : [] ∈ done ++ waiting
  mem_seen : ∀ q, q ∈ seen ↔ ∃ w ∈ done ++ waiting, w.foldl m.successor p = q
  expanded : ∀ w ∈ done, ∀ a ∈ m.alphabet, m.successor (w.foldl m.successor p) a ∈ seen

theorem Ranked.start (m : Nfa S C) (p : SortedSet S) : m.Ranked p [] [[]] {p} where
  increasing := List.pairwise_singleton _ _
  ahead w hw u hu a := by
    rw [List.mem_singleton.1 hw, List.mem_singleton.1 hu]
    exact shortlex_concat [] a
  least w hw := by
    rw [List.mem_singleton.1 hw]
    exact ⟨fun a ha => absurd ha List.not_mem_nil, rfl, fun v _ _ => nil_shortlex v⟩
  nil := List.mem_singleton.2 rfl
  mem_seen q := by
    have hq : q ∈ ({p} : Std.TreeSet (SortedSet S)) ↔ q = p :=
      mem_insertTree.trans (or_iff_left Std.TreeSet.not_mem_emptyc)
    rw [hq]
    constructor
    · rintro rfl
      exact ⟨[], List.mem_singleton.2 rfl, rfl⟩
    · rintro ⟨w, hw, rfl⟩
      rw [List.mem_singleton.1 hw]
      rfl
  expanded w hw := absurd hw List.not_mem_nil

namespace Ranked

theorem head_lt (h : m.Ranked p done (u :: waiting) seen) (hw : w ∈ waiting) : Shortlex u w :=
  (List.pairwise_cons.1 (List.pairwise_append.1 h.increasing).2.1).1 w hw

theorem mem_done_of_lt (h : m.Ranked p done (u :: waiting) seen) (hw : w ∈ done ++ u :: waiting)
    (hwu : Shortlex w u) : w ∈ done := by
  rcases List.mem_append.1 hw with hw | hw
  · exact hw
  · rcases List.mem_cons.1 hw with rfl | hw
    · exact absurd hwu (Shortlex.irrefl w)
    · exact absurd (hwu.trans (h.head_lt hw)) (Shortlex.irrefl w)

theorem concat_seen (h : m.Ranked p done waiting seen) (hw : w ∈ done) (ha : a ∈ m.alphabet)
    (hwv : w.foldl m.successor p = v.foldl m.successor p) :
    (v ++ [a]).foldl m.successor p ∈ seen := by
  rw [List.foldl_concat, ← hwv]
  exact h.expanded w hw a ha

theorem exists_done (h : m.Ranked p done (u :: waiting) seen) (hv : ∀ a ∈ v, a ∈ m.alphabet)
    (hvu : Shortlex v u) : ∃ w ∈ done, w.foldl m.successor p = v.foldl m.successor p := by
  induction v using List.reverseRecOn with
  | nil => exact ⟨[], h.mem_done_of_lt h.nil hvu, rfl⟩
  | append_singleton v b ih =>
    obtain ⟨hv', hb⟩ := List.forall_mem_append.1 hv
    obtain ⟨e, he, hev⟩ := ih hv' ((shortlex_concat v b).trans hvu)
    -- the expansion of that set saw the next one, by a word that is not greater
    have hseen := h.concat_seen he (hb b List.mem_cons_self) hev
    obtain ⟨w, hw, hwv⟩ := (h.mem_seen _).1 hseen
    refine ⟨w, h.mem_done_of_lt hw ?_, hwv⟩
    rcases (h.least w hw).least _ hv hwv.symm with heq | hlt
    · rwa [← heq]
    · exact hlt.trans hvu

theorem least_concat (h : m.Ranked p done (u :: waiting) seen) (ha : a ∈ m.alphabet)
    (hnew : m.successor (u.foldl m.successor p) a ∉ seen)
    (hfirst : ∀ b ∈ m.alphabet, m.successor (u.foldl m.successor p) b =
      m.successor (u.foldl m.successor p) a → b = a ∨ compare a b = .lt) :
    m.LeastWord p ((u ++ [a]).foldl m.successor p) (u ++ [a]) where
  letters := by
    have hu : u ∈ done ++ u :: waiting := List.mem_append_right _ List.mem_cons_self
    exact List.forall_mem_append.2 ⟨(h.least u hu).letters, List.forall_mem_singleton.2 ha⟩
  leads := rfl
  least v hv hva := by
    rw [← List.foldl_concat (f := m.successor)] at hnew
    rcases List.eq_nil_or_concat' v with rfl | ⟨v, b, rfl⟩
    · exact absurd ((h.mem_seen _).2 ⟨[], h.nil, hva⟩) hnew
    · obtain ⟨hv, hb⟩ := List.forall_mem_append.1 hv
      have hb : b ∈ m.alphabet := hb b List.mem_cons_self
      rcases shortlex_trichotomy v u with hvu | rfl | huv
      · obtain ⟨w, hw, hwv⟩ := h.exists_done hv hvu
        exact absurd (hva ▸ h.concat_seen hw hb hwv) hnew
      · rw [List.foldl_concat, List.foldl_concat] at hva
        exact (hfirst b hb hva).imp (fun hba => by rw [hba]) fun hab => Shortlex.last hab v
      · exact .inr (huv.concat a b)

theorem expand (h : m.Ranked p done (u :: waiting) seen)
    (hfound : (m.expansion (u.foldl m.successor p) seen).1 = new.map (·.foldl m.successor p))
    (hnew : ∀ w ∈ new, ∃ a, w = u ++ [a]) (hincreasing : new.Pairwise Shortlex)
    (hleast : ∀ w ∈ new, m.LeastWord p (w.foldl m.successor p) w) :
    m.Ranked p (done ++ [u]) (waiting ++ new) (m.expansion (u.foldl m.successor p) seen).2 := by
  have hwords : done ++ [u] ++ (waiting ++ new) = done ++ u :: waiting ++ new := by simp
  have hnext : ∀ w ∈ new, ∀ v ∈ done ++ u :: waiting, Shortlex v w := by
    intro w hw v hv
    obtain ⟨a, rfl⟩ := hnew w hw
    exact h.ahead v hv u List.mem_cons_self a
  have hlater : ∀ v ∈ waiting ++ new, Shortlex u v := by
    intro v hv
    rcases List.mem_append.1 hv with hv | hv
    · exact h.head_lt hv
    · exact hnext v hv u (List.mem_append_right _ List.mem_cons_self)
  constructor
  case increasing =>
    rw [hwords]
    exact List.pairwise_append.2 ⟨h.increasing, hincreasing, fun v hv w hw => hnext w hw v hv⟩
  case ahead =>
    intro w hw v hv a
    -- whatever lies before the extensions of the old head lies before those of the new one
    have huv := hlater v hv
    rw [hwords] at hw
    rcases List.mem_append.1 hw with hw | hw
    · exact (h.ahead w hw u List.mem_cons_self a).trans (huv.concat a a)
    · obtain ⟨b, rfl⟩ := hnew w hw
      exact huv.concat b a
  case least =>
    rw [hwords]
    exact List.forall_mem_append.2 ⟨h.least, hleast⟩
  case nil =>
    rw [hwords]
    exact List.mem_append_left _ h.nil
  case mem_seen =>
    intro q
    rw [hwords, mem_expansion_snd, h.mem_seen, hfound, List.mem_map]
    simp only [List.mem_append, or_and_right, exists_or]
  case expanded =>
    intro w hw a ha
    apply mem_fresh_snd.2
    rcases List.mem_append.1 hw with hw | hw
    · exact .inr (h.expanded w hw a ha)
    · rw [List.mem_singleton.1 hw]
      exact .inl (mem_targets.2 ⟨a, ha, rfl⟩)

theorem exists_new (h : m.Ranked p done (u :: waiting) seen) :
    ∃ new : List (List C),
      (m.expansion (u.foldl m.successor p) seen).1 = new.map (·.foldl m.successor p) ∧
        m.Ranked p (done ++ [u]) (waiting ++ new) (m.expansion (u.foldl m.successor p) seen).2 := by
  obtain ⟨symbols, hincreasing, hfound, hfirst⟩ := m.exists_symbols (u.foldl m.successor p) seen
  have hwords : (m.expansion (u.foldl m.successor p) seen).1 =
      (symbols.map (u ++ [·])).map (·.foldl m.successor p) := by
    simp only [hfound, List.map_map, Function.comp_def, List.foldl_concat]
  refine ⟨symbols.map (u ++ [·]), hwords, h.expand hwords ?_ ?_ ?_⟩
  · intro w hw
    obtain ⟨a, _, rfl⟩ := List.mem_map.1 hw
    exact ⟨a, rfl⟩
  · exact List.pairwise_map.2 (hincreasing.imp fun hab => Shortlex.last hab u)
  · intro w hw
    obtain ⟨a, ha, rfl⟩ := List.mem_map.1 hw
    obtain ⟨hsymbol, hunseen, hleast⟩ := hfirst a ha
    exact h.least_concat hsymbol hunseen hleast

theorem explore (h : m.Ranked p done waiting seen) (n : Nat) :
    ∃ words : List (List C),
      m.explore n (waiting.map (·.foldl m.successor p)) seen = words.map (·.foldl m.successor p) ∧
        (done ++ words).Pairwise Shortlex ∧
          ∀ w ∈ words, m.LeastWord p (w.foldl m.successor p) w := by
  induction n generalizing done waiting seen with
  | zero =>
    refine ⟨[], rfl, ?_, fun w hw => absurd hw List.not_mem_nil⟩
    rw [List.append_nil]
    exact (List.pairwise_append.1 h.increasing).1
  | succ n ih =>
    cases waiting with
    | nil =>
      refine ⟨[], rfl, h.increasing, fun w hw => absurd hw List.not_mem_nil⟩
    | cons u waiting =>
      obtain ⟨new, hfound, hnew⟩ := h.exists_new
      obtain ⟨words, hexplore, hincreasing, hleast⟩ := ih hnew
      refine ⟨u :: words, ?_, ?_, ?_⟩
      · rw [List.map_cons, explore_cons, hfound, ← List.map_append, hexplore, List.map_cons]
      · rwa [List.append_assoc, List.singleton_append] at hincreasing
      · have hu : u ∈ done ++ u :: waiting := List.mem_append_right _ List.mem_cons_self
        exact List.forall_mem_cons.2 ⟨h.least u hu, hleast⟩

end Ranked

variable (m p) in
theorem exists_words_discovered :
    ∃ words : List (List C), List.Forall₂ (m.LeastWord p) (m.discovered p) words ∧
      words.Pairwise Shortlex := by
  obtain ⟨words, hwords, hincreasing, hleast⟩ :=
    (Ranked.start m p).explore (Nat.pow 2 m.rules.length + 1)
  refine ⟨words, ?_, hincreasing⟩
  have hdiscovered : m.discovered p = words.map (·.foldl m.successor p) := hwords
  rw [hdiscovered, List.forall₂_map_left_iff, List.forall₂_same]
  exact hleast

structure InShortlexOrder (m : Nfa S C) (p : SortedSet S) (sets : List (SortedSet S))
    (rules : List (FiniteRule (SortedSet S) C)) : Prop where
  ends : ∀ n, Nat.pow 2 m.rules.length + 1 ≤ n → m.explore n [p] {p} = sets
  first : sets.head? = some p
  nodup : sets.Nodup
  reached : ∀ q, q ∈ sets ↔ ∃ w : List C, (∀ a ∈ w, a ∈ m.alphabet) ∧ w.foldl m.successor p = q
  blocks : rules = sets.flatMap fun q => m.alphabet.toList.map fun a => ⟨q, some a, m.successor q a⟩
  symbols : Increasing m.alphabet.toList ∧
    ∀ a, a ∈ m.alphabet.toList ↔ ∃ r ∈ m.rules, r.trigger = some a
  ordered : ∃ words, List.Forall₂ (m.LeastWord p) sets words ∧ words.Pairwise Shortlex

theorem discoveredRules_inShortlexOrder (m : Nfa S C) (p : SortedSet S) :
    m.InShortlexOrder p (m.discovered p) (m.discoveredRules p) where
  ends _ hn := explore_eq_discovered p hn
  first := rfl
  nodup := m.nodup_discovered p
  reached _ := mem_discovered_iff
  blocks := rfl
  symbols := ⟨m.alphabet.sorted, fun _ => mem_alphabet⟩
  ordered := m.exists_words_discovered p

end Nfa

end TableMachines
