import Mathlib.Data.List.Chain

/-!
# Histories that walk along a relation

A history lists changes as pairs of where one came from and where one went. It
is a walk of an edge relation when it begins at the start, every later entry
departs from where the one before it arrived, along an edge, and the last
arrival is the current position.
-/

namespace Walks

universe u
variable {σ : Type u} {edge : σ → σ → Prop} {start : σ}

/-- The first entry comes from nowhere (`none`). -/
structure IsWalk (edge : σ → σ → Prop) (start : σ) (rows : List (Option σ × σ))
    (current : σ) : Prop where
  first : rows.head? = some (none, start)
  linked : rows.IsChain (fun r r' => r'.1 = some r.2)
  edges : ∀ r ∈ rows.tail, ∃ a, r.1 = some a ∧ edge a r.2
  last : rows.getLast?.map Prod.snd = some current

theorem isWalk_start : IsWalk edge start [(none, start)] start where
  first := rfl
  linked := List.isChain_singleton _
  edges := by simp
  last := rfl

theorem IsWalk.ne_nil {rows : List (Option σ × σ)} {current : σ}
    (h : IsWalk edge start rows current) : rows ≠ [] := by
  intro hnil
  have hf := h.first
  rw [hnil] at hf
  cases hf

/-- One more entry continues a walk exactly when it departs from the current
position along an edge. -/
theorem IsWalk.snoc_iff {rows : List (Option σ × σ)} {current : σ}
    (h : IsWalk edge start rows current) (departure : Option σ) (arrival : σ) :
    IsWalk edge start (rows ++ [(departure, arrival)]) arrival ↔
      departure = some current ∧ edge current arrival := by
  obtain ⟨r, rest, rfl⟩ := List.exists_cons_of_ne_nil h.ne_nil
  have hlast := h.last
  constructor
  · intro hw
    have hlinked := (List.isChain_append.mp hw.linked).2.2
    have hdep : departure = some current := by
      cases hl : (r :: rest).getLast? with
      | none => simp at hl
      | some l =>
        rw [hl] at hlast
        have hd : departure = some l.2 := hlinked l (by simp [hl]) (departure, arrival) (by simp)
        rw [hd]
        exact hlast
    obtain ⟨a, ha, he⟩ := hw.edges (departure, arrival) (by simp)
    have hac : a = current := Option.some.inj (ha.symm.trans hdep)
    exact ⟨hdep, hac ▸ he⟩
  · rintro ⟨rfl, he⟩
    refine ⟨h.first, ?_, ?_, by rw [List.getLast?_concat]; rfl⟩
    · refine List.isChain_append.mpr ⟨h.linked, List.isChain_singleton _, ?_⟩
      intro l hl e hmem
      have hl' : (r :: rest).getLast? = some l := by simpa using hl
      have hmem' : e = (some current, arrival) := by simpa [eq_comm] using hmem
      rw [hl'] at hlast
      rw [hmem']
      exact hlast.symm
    · intro e hmem
      rcases List.mem_append.mp hmem with hmem | hmem
      · exact h.edges e hmem
      · rw [List.mem_singleton] at hmem
        subst e
        exact ⟨current, rfl, he⟩

/-- Where edges do not leave a set of positions, a walk that has arrived there is
still there. -/
theorem IsWalk.stays {C : σ → Prop} (closed : ∀ a b, edge a b → C a → C b)
    {rows : List (Option σ × σ)} {current : σ} (h : IsWalk edge start rows current)
    {row : Option σ × σ} (arrived : row ∈ rows) (there : C row.2) : C current := by
  have forward : ∀ rows : List (Option σ × σ), rows.IsChain (fun r r' => r'.1 = some r.2) →
      (∀ r ∈ rows.tail, ∃ a, r.1 = some a ∧ edge a r.2) → ∀ r ∈ rows, C r.2 →
      ∀ last, rows.getLast? = some last → C last.2 := by
    intro rows
    induction rows with
    | nil =>
      intro _ _ r hr
      cases hr
    | cons first rest ih =>
      intro linked edges r hr hC last hlast
      cases rest with
      | nil =>
        rw [List.mem_singleton.mp hr] at hC
        cases hlast
        exact hC
      | cons next rest =>
        obtain ⟨departs, onward⟩ := List.isChain_cons_cons.mp linked
        have later : ∀ r ∈ rest, ∃ a, r.1 = some a ∧ edge a r.2 :=
          fun r hr => edges r (List.mem_cons_of_mem _ hr)
        rw [List.getLast?_cons_cons] at hlast
        rcases List.mem_cons.mp hr with rfl | hr
        · obtain ⟨a, ha, he⟩ := edges next List.mem_cons_self
          rw [departs] at ha
          cases ha
          exact ih onward later next List.mem_cons_self (closed _ _ he hC) last hlast
        · exact ih onward later r hr hC last hlast
  obtain ⟨last, hlast, rfl⟩ := Option.map_eq_some_iff.mp h.last
  exact forward rows h.linked h.edges row arrived there last hlast

end Walks
