import RiskCore.Runs

/-!
# Parts of a system and what a system implements

A system made of parts is looked at in two ways. Seen from one of its parts, a
run of the system is a run of the part, in which the part has taken some actions
of its own at every step; what is known of the part alone then holds of it inside
the system. Seen from above, a run of the system is a run of a specification that
takes some steps for each of its own.
-/

namespace Components

universe u v w x
variable {S : Type u} {A : Type v} {T : Type w} {B : Type x}
  {step : S → A → Option S} {part : T → B → Option T}

/-- `proj` is the part's state, `acts` what the part does at a step of the system. -/
def Part (step : S → A → Option S) (part : T → B → Option T) (proj : S → T)
    (acts : S → A → List B) : Prop :=
  ∀ s a t, step s a = some t → Runs.run part (proj s) (acts s a) = some (proj t)

section
variable {proj : S → T} {acts : S → A → List B}

theorem Part.run (h : Part step part proj acts) {s t : S} {as : List A}
    (hrun : Runs.run step s as = some t) :
    Runs.run part (proj s) (Runs.journal step acts s as) = some (proj t) := by
  refine Runs.run_induction (P := fun as t =>
    Runs.run part (proj s) (Runs.journal step acts s as) = some (proj t)) rfl ?_ hrun
  intro as t a u ht ih hu
  rw [Runs.journal_snoc ht]
  exact Runs.run_append.mpr ⟨proj t, ih, h t a u hu⟩

/-- A condition on the part's steps is a condition on the system's. -/
theorem Part.steps (h : Part step part proj acts) {Q : T → B → T → Prop} {s t : S} {as : List A}
    (hrun : Runs.run step s as = some t)
    (hQ : Runs.Steps step (fun s a _ => Runs.Steps part Q (proj s) (acts s a)) s as) :
    Runs.Steps part Q (proj s) (Runs.journal step acts s as) := by
  induction as using List.reverseRecOn generalizing t with
  | nil => trivial
  | append_singleton as a ih =>
    obtain ⟨r, hr, hst⟩ := Runs.run_snoc.mp hrun
    obtain ⟨hbefore, hlast⟩ := Runs.steps_snoc.mp hQ
    rw [Runs.journal_snoc hr, Runs.steps_append (h.run hr)]
    exact ⟨ih hr hbefore, hlast r t hr hst⟩

end

/-- What is true of an entry when it is reported, and stays true, is true of all
entries in the end. -/
theorem forall_journal {β : Type x} (report : S → A → List β) (P : S → β → Prop)
    (reported : ∀ s a t, step s a = some t → ∀ b ∈ report s a, P t b)
    (stays : ∀ s a t b, step s a = some t → P s b → P t b) {s t : S} {as : List A}
    (hrun : Runs.run step s as = some t) : ∀ b ∈ Runs.journal step report s as, P t b := by
  refine Runs.run_induction (P := fun as t => ∀ b ∈ Runs.journal step report s as, P t b) ?_ ?_ hrun
  · intro b hb
    cases hb
  · intro as t a u ht ih hu
    rw [Runs.journal_snoc ht]
    refine List.forall_mem_append.mpr ⟨fun b hb => stays t a u b hu (ih b hb), ?_⟩
    exact reported t a u hu

/-! ## Specifications -/

/-- Related states stay related when the specification `spec` takes some steps for
each of the system's. -/
def Simulates (step : S → A → Option S) (spec : T → B → Option T) (R : S → T → Prop) : Prop :=
  ∀ s a t x, R s x → step s a = some t → ∃ bs y, Runs.run spec x bs = some y ∧ R t y

theorem Simulates.run {spec : T → B → Option T} {R : S → T → Prop} (sim : Simulates step spec R)
    {s t : S} {x : T} {as : List A} (hR : R s x) (hrun : Runs.run step s as = some t) :
    ∃ bs y, Runs.run spec x bs = some y ∧ R t y := by
  induction as generalizing s x with
  | nil =>
    cases hrun
    exact ⟨[], x, rfl, hR⟩
  | cons a as ih =>
    obtain ⟨r, hr, ht⟩ := Runs.run_cons.mp hrun
    obtain ⟨bs, y, hy, hRy⟩ := sim s a r x hR hr
    obtain ⟨bs', z, hz, hRz⟩ := ih hRy ht
    exact ⟨bs ++ bs', z, Runs.run_append.mpr ⟨y, hy, hz⟩, hRz⟩

/-- Specifications of specifications. -/
theorem Simulates.trans {U : Type*} {C : Type*} {spec : T → B → Option T}
    {spec' : U → C → Option U} {R : S → T → Prop} {R' : T → U → Prop}
    (sim : Simulates step spec R) (sim' : Simulates spec spec' R') :
    Simulates step spec' (fun s z => ∃ x, R s x ∧ R' x z) := by
  rintro s a t z ⟨x, hR, hR'⟩ hst
  obtain ⟨bs, y, hy, hRy⟩ := sim s a t x hR hst
  obtain ⟨cs, w, hw, hRw⟩ := sim'.run hR' hy
  exact ⟨cs, w, hw, y, hRy, hRw⟩

/-- From these starts on, the specification keeps up with the system, and what the
two have come to is as `shows` says. -/
def Implements (step : S → A → Option S) (s₀ : S) (spec : T → B → Option T) (x₀ : T)
    (shows : S → T → Prop) : Prop :=
  ∃ R, R s₀ x₀ ∧ Simulates step spec R ∧ ∀ s x, R s x → shows s x

end Components
