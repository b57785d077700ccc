import Mathlib.Data.List.Chain
import Mathlib.Data.List.TakeWhile
import Mathlib.Logic.Relation
import TableMachines.Analysis.Audit
import TableMachines.Proofs.SortedSet.Growth

namespace TableMachines.Table

open SortedSet Relation

variable {R S C K : Type} [Rule R S C K] {rules : Table R} {s t : S} {path : List S}

def FreeMove (rules : Table R) (s t : S) : Prop :=
  ∃ r ∈ rules, Rule.isFree r = true ∧ Rule.source r = s ∧ Rule.target r = t

def IsFreeCycle (rules : Table R) : List S → Prop
  | [] => False
  | s :: l => (s :: l).Nodup ∧ (s :: l ++ [s]).IsChain (FreeMove rules)

structure Trail (rules : Table R) (path : List S) (s : S) : Prop where
  chain : (path ++ [s]).IsChain (FreeMove rules)
  nodup : path.Nodup

theorem exists_next_of_isChain (h : (path ++ [t]).IsChain (FreeMove rules)) (hs : s ∈ path) :
    ∃ u ∈ path ++ [t], FreeMove rules s u := by
  induction path with
  | nil => cases hs
  | cons a path ih =>
    rw [List.cons_append, List.isChain_cons] at h
    rcases List.mem_cons.1 hs with rfl | hs
    · cases hpath : path ++ [t] with
      | nil => simp at hpath
      | cons u rest =>
        refine ⟨u, ?_, h.1 u (by rw [hpath]; rfl)⟩
        rw [List.cons_append, hpath]
        exact List.mem_cons_of_mem s List.mem_cons_self
    · obtain ⟨u, hu, hsu⟩ := ih h.2 hs
      exact ⟨u, List.mem_cons_of_mem a hu, hsu⟩

theorem IsFreeCycle.exists_next {cycle : List S} (h : IsFreeCycle rules cycle) (hs : s ∈ cycle) :
    ∃ t ∈ cycle, FreeMove rules s t := by
  cases cycle with
  | nil => cases h
  | cons a l =>
    obtain ⟨t, ht, hst⟩ := exists_next_of_isChain h.2 hs
    refine ⟨t, ?_, hst⟩
    rcases List.mem_append.1 ht with ht | ht
    · exact ht
    · rw [List.mem_singleton.1 ht]
      exact List.mem_cons_self

theorem Trail.start (rules : Table R) (s : S) : Trail rules [] s where
  chain := .singleton s
  nodup := .nil

theorem Trail.extend (h : Trail rules path s) (hs : s ∉ path) (hst : FreeMove rules s t) :
    Trail rules (path ++ [s]) t where
  chain := by
    refine List.isChain_append.2 ⟨h.chain, .singleton t, fun u hu v hv => ?_⟩
    simp only [List.getLast?_append, List.getLast?_singleton, Option.some_or, Option.mem_def,
      Option.some.injEq, List.head?_cons] at hu hv
    rw [← hu, ← hv]
    exact hst
  nodup := by
    refine List.nodup_append.2 ⟨h.nodup, List.pairwise_singleton _ s, fun u hu v hv huv => ?_⟩
    rw [List.mem_singleton.1 hv] at huv
    exact hs (huv ▸ hu)

variable [Ordered S] {done : SortedSet S} {n : Nat}

theorem Trail.cycle (h : Trail rules path t) (ht : t ∈ path) :
    IsFreeCycle rules (path.dropWhile (· ≠ t)) := by
  obtain ⟨front, hfront⟩ := List.dropWhile_suffix (l := path) (· ≠ t)
  cases hcycle : path.dropWhile (· ≠ t) with
  | nil =>
    have hall := List.dropWhile_eq_nil_iff.1 hcycle t ht
    simp at hall
  | cons u rest =>
    have hut : u = t := by
      have hhead := List.head?_dropWhile_not (· ≠ t) path
      rw [hcycle] at hhead
      simpa using hhead
    rw [hcycle, hut] at hfront
    have hnodup := h.nodup
    have hchain := h.chain
    rw [← hfront] at hnodup hchain
    rw [List.append_assoc] at hchain
    rw [hut]
    exact ⟨(List.nodup_append.1 hnodup).2.1, hchain.right_of_append⟩

/-- States from which free moves lead to such states only, and never back. -/
structure Finished (rules : Table R) (done : SortedSet S) : Prop where
  closed : ∀ s ∈ done, ∀ t, FreeMove rules s t → t ∈ done
  acyclic : ∀ s ∈ done, ¬ TransGen (FreeMove rules) s s

def Searched (rules : Table R) (done : SortedSet S) (wanted : List S) :
    Except (List S) (SortedSet S) → Prop
  | .error cycle => IsFreeCycle rules cycle
  | .ok done' => Finished rules done' ∧ done ⊆ done' ∧ ∀ s ∈ wanted, s ∈ done'

theorem mem_freeTargets : t ∈ freeTargets rules s ↔ FreeMove rules s t := by
  simp [freeTargets, FreeMove, and_assoc]

theorem mem_freeSources : s ∈ freeSources rules ↔ ∃ t, FreeMove rules s t := by
  simp only [freeSources, mem_ofList, List.mem_map, List.mem_filter, FreeMove]
  constructor
  · rintro ⟨r, ⟨hr, hfree⟩, hs⟩
    exact ⟨Rule.target r, r, hr, hfree, hs, rfl⟩
  · rintro ⟨t, r, hr, hfree, hs, _⟩
    exact ⟨r, ⟨hr, hfree⟩, hs⟩

theorem size_freeSources_le (rules : Table R) : (freeSources rules).size ≤ rules.length := by
  have hsize := size_ofList_le ((rules.filter (Rule.isFree ·)).map Rule.source)
  rw [List.length_map] at hsize
  exact hsize.trans (List.length_filter_le _ _)

theorem Trail.length_le (h : Trail rules path s) : path.length ≤ rules.length := by
  have hsize : path.length ≤ (freeSources rules).size := by
    refine length_le_size h.nodup fun u hu => ?_
    obtain ⟨v, _, huv⟩ := exists_next_of_isChain h.chain hu
    exact mem_freeSources.2 ⟨v, huv⟩
  exact hsize.trans (size_freeSources_le rules)

theorem Finished.empty (rules : Table R) : Finished rules ∅ where
  closed s hs := absurd hs (not_mem_empty s)
  acyclic s hs := absurd hs (not_mem_empty s)

theorem Finished.mem_of_reached (h : Finished rules done) (hs : s ∈ done)
    (hst : ReflTransGen (FreeMove rules) s t) : t ∈ done := by
  induction hst with
  | refl => exact hs
  | tail _ hstep ih => exact h.closed _ ih _ hstep

theorem Finished.insert (h : Finished rules done) (hs : ∀ t, FreeMove rules s t → t ∈ done) :
    Finished rules (done.insert s) where
  closed u hu t hut := by
    rcases mem_insert.1 hu with rfl | hu
    · exact mem_insert.2 (.inr (hs t hut))
    · exact mem_insert.2 (.inr (h.closed u hu t hut))
  acyclic u hu hcycle := by
    rcases mem_insert.1 hu with rfl | hu
    · -- a way back to it would run through finished states, which lead to finished states only
      obtain ⟨t, hut, htu⟩ := TransGen.head'_iff.1 hcycle
      exact h.acyclic u (h.mem_of_reached (hs t hut) htu) hcycle
    · exact h.acyclic u hu hcycle

theorem Searched.foldlM {l : List S} {visit : SortedSet S → S → Except (List S) (SortedSet S)}
    (hvisit : ∀ done, Finished rules done → ∀ s ∈ l, Searched rules done [s] (visit done s))
    (hdone : Finished rules done) : Searched rules done l (l.foldlM visit done) := by
  induction l generalizing done with
  | nil => exact ⟨hdone, fun _ hs => hs, fun s hs => absurd hs List.not_mem_nil⟩
  | cons a l ih =>
    have ha := hvisit done hdone a List.mem_cons_self
    rw [List.foldlM_cons]
    cases hfound : visit done a with
    | error cycle =>
      rw [hfound] at ha
      exact ha
    | ok done₁ =>
      rw [hfound] at ha
      obtain ⟨hdone₁, hsub₁, hmem₁⟩ := ha
      have hrest := ih (fun done h s hs => hvisit done h s (List.mem_cons_of_mem a hs)) hdone₁
      show Searched rules done (a :: l) (l.foldlM visit done₁)
      cases hlater : l.foldlM visit done₁ with
      | error cycle =>
        rw [hlater] at hrest
        exact hrest
      | ok done₂ =>
        rw [hlater] at hrest
        obtain ⟨hdone₂, hsub₂, hmem₂⟩ := hrest
        refine ⟨hdone₂, fun s hs => hsub₂ s (hsub₁ s hs), fun s hs => ?_⟩
        rcases List.mem_cons.1 hs with rfl | hs
        · exact hsub₂ s (hmem₁ s List.mem_cons_self)
        · exact hmem₂ s hs

theorem Searched.of_not_done (hdone : Finished rules done)
    {found : Except (List S) (SortedSet S)} (h : Searched rules done [s] found) :
    Searched rules done [s] (if s ∈ done then .ok done else found) := by
  split
  · next hs => exact ⟨hdone, fun _ hu => hu, fun u hu => List.mem_singleton.1 hu ▸ hs⟩
  · exact h

theorem Searched.insert {found : Except (List S) (SortedSet S)}
    (hs : Searched rules done (freeTargets rules s) found) :
    Searched rules done [s] (found.map (·.insert s)) := by
  cases found with
  | error cycle => exact hs
  | ok done₁ =>
    obtain ⟨hdone₁, hsub₁, hmem₁⟩ := hs
    refine ⟨hdone₁.insert fun t ht => hmem₁ t (mem_freeTargets.2 ht), ?_, ?_⟩
    · intro u hu
      exact mem_insert.2 (.inr (hsub₁ u hu))
    · intro u hu
      exact mem_insert.2 (.inl (List.mem_singleton.1 hu))

theorem searched_searchFrom (hn : n + path.length = rules.length + 1) (hpath : Trail rules path s)
    (hs : s ∉ path) (hdone : Finished rules done) :
    Searched rules done [s] (searchFrom rules n path done s) := by
  induction n generalizing path done s with
  | zero =>
    have := hpath.length_le
    omega
  | succ n ih =>
    refine .insert (.foldlM (fun done hdone t ht => ?_) hdone)
    have htrail := hpath.extend hs (mem_freeTargets.1 ht)
    have hn' : n + (path ++ [s]).length = rules.length + 1 := by
      rw [List.length_append, List.length_singleton]
      omega
    split
    · next ht => exact htrail.cycle ht
    · next ht => exact .of_not_done hdone (ih hn' htrail ht hdone)

theorem exists_searched (rules : Table R) :
    ∃ found, Searched rules ∅ (freeSources rules).toList found ∧
      freeCycle? rules = match found with
        | .error cycle => some cycle
        | .ok _ => none := by
  refine ⟨_, .foldlM (fun done hdone s _ => ?_) (.empty rules), rfl⟩
  exact .of_not_done hdone (searched_searchFrom rfl (.start rules s) List.not_mem_nil hdone)

theorem isFreeCycle_of_freeCycle? {cycle : List S} (h : freeCycle? rules = some cycle) :
    IsFreeCycle rules cycle := by
  obtain ⟨found, hfound, heq⟩ := exists_searched rules
  rw [heq] at h
  cases found with
  | error found =>
    cases h
    exact hfound
  | ok done => cases h

theorem freeCycle?_eq_none_of_no_free (h : ∀ r ∈ rules, Rule.isFree r = false) :
    freeCycle? rules = none := by
  refine Option.eq_none_iff_forall_ne_some.2 fun cycle hcycle => ?_
  have hfound := isFreeCycle_of_freeCycle? hcycle
  cases cycle with
  | nil => exact hfound
  | cons s l =>
    obtain ⟨_, _, r, hr, hfree, _⟩ := hfound.exists_next List.mem_cons_self
    rw [h r hr] at hfree
    cases hfree

theorem acyclic_of_freeCycle? (h : freeCycle? rules = none) (s : S) :
    ¬ TransGen (FreeMove rules) s s := by
  intro hcycle
  obtain ⟨found, hfound, heq⟩ := exists_searched rules
  rw [heq] at h
  cases found with
  | error cycle => cases h
  | ok done =>
    obtain ⟨hdone, _, hmem⟩ := hfound
    obtain ⟨t, hst, _⟩ := TransGen.head'_iff.1 hcycle
    exact hdone.acyclic s (hmem s (mem_freeSources.2 ⟨t, hst⟩)) hcycle

end TableMachines.Table
