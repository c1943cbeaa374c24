import Mathlib.Data.List.Infix

/-!
# Runs of a partial step function

A system is a step function on states; an action that is not possible in a
state has no successor. A run is the list of the actions taken. Safety is read
off a run in two ways: a predicate on every state it visits, and a predicate on
every step it takes. The two are tied together by the rules at the end, which
turn step lemmas into statements about whole runs.
-/

namespace Runs

universe u v w
variable {S : Type u} {A : Type v}

/-- The state after a run, if every action was possible when its turn came. -/
def run (step : S → A → Option S) : S → List A → Option S
  | s, [] => some s
  | s, a :: as => (step s a).bind (fun t => run step t as)

/-- What the steps of a run report, in order. -/
def journal {β : Type w} (step : S → A → Option S) (report : S → A → List β) :
    S → List A → List β
  | _, [] => []
  | s, a :: as => report s a ++ ((step s a).map (fun t => journal step report t as)).getD []

/-- `P` in every state the run visits, the first one included. -/
def Always (step : S → A → Option S) (P : S → Prop) : S → List A → Prop
  | s, [] => P s
  | s, a :: as => P s ∧ ∀ t, step s a = some t → Always step P t as

/-- `Q` of every step the run takes: state before, action, state after. -/
def Steps (step : S → A → Option S) (Q : S → A → S → Prop) : S → List A → Prop
  | _, [] => True
  | s, a :: as => ∀ t, step s a = some t → Q s a t ∧ Steps step Q t as

/-- A predicate that one step cannot leave. -/
def Inductive (step : S → A → Option S) (I : S → Prop) : Prop :=
  ∀ s a t, I s → step s a = some t → I t

/-- A concrete run can be checked step by step. -/
instance decidableSteps (step : S → A → Option S) (Q : S → A → S → Prop)
    [∀ s a t, Decidable (Q s a t)] : ∀ s as, Decidable (Steps step Q s as)
  | _, [] => isTrue trivial
  | s, a :: as =>
    match h : step s a with
    | none => isTrue (fun t ht => by rw [h] at ht; cases ht)
    | some t =>
      have := decidableSteps step Q t as
      if hq : Q s a t ∧ Steps step Q t as then
        isTrue (fun t' ht' => Option.some.inj (h.symm.trans ht') ▸ hq)
      else isFalse (fun hall => hq (hall t h))

instance decidableAlways (step : S → A → Option S) (P : S → Prop) [DecidablePred P] :
    ∀ s as, Decidable (Always step P s as)
  | s, [] => inferInstanceAs (Decidable (P s))
  | s, a :: as =>
    match h : step s a with
    | none =>
      decidable_of_iff (P s) ⟨fun hs => ⟨hs, fun t ht => by rw [h] at ht; cases ht⟩, And.left⟩
    | some t =>
      have := decidableAlways step P t as
      decidable_of_iff (P s ∧ Always step P t as)
        ⟨fun hs => ⟨hs.1, fun t' ht' => Option.some.inj (h.symm.trans ht') ▸ hs.2⟩,
          fun hall => ⟨hall.1, hall.2 t h⟩⟩

variable {step : S → A → Option S}

@[simp] theorem run_nil (s : S) : run step s [] = some s := rfl

theorem run_cons {s u : S} {a : A} {as : List A} :
    run step s (a :: as) = some u ↔ ∃ t, step s a = some t ∧ run step t as = some u := by
  simp [run, Option.bind_eq_some_iff]

theorem run_append {s u : S} {as bs : List A} :
    run step s (as ++ bs) = some u ↔ ∃ t, run step s as = some t ∧ run step t bs = some u := by
  induction as generalizing s with
  | nil => simp
  | cons a as ih =>
    simp only [List.cons_append, run_cons, ih]
    constructor
    · rintro ⟨t, ht, r, hr, hu⟩
      exact ⟨r, ⟨t, ht, hr⟩, hu⟩
    · rintro ⟨r, ⟨t, ht, hr⟩, hu⟩
      exact ⟨t, ht, r, hr, hu⟩

theorem run_snoc {s u : S} {as : List A} {a : A} :
    run step s (as ++ [a]) = some u ↔ ∃ t, run step s as = some t ∧ step t a = some u := by
  rw [run_append]
  simp [run]

theorem journal_snoc {β : Type w} {report : S → A → List β} {s t : S} {as : List A}
    (h : run step s as = some t) (a : A) :
    journal step report s (as ++ [a]) = journal step report s as ++ report t a := by
  induction as generalizing s with
  | nil =>
    cases h
    cases hst : step t a <;> simp [journal, hst]
  | cons b as ih =>
    obtain ⟨r, hr, ht⟩ := run_cons.mp h
    simp only [List.cons_append, journal, hr, Option.map_some, Option.getD_some, ih ht,
      List.append_assoc]

/-- Induction along a run, for what depends on the actions taken so far. -/
theorem run_induction {P : List A → S → Prop} {s : S} (nil : P [] s)
    (snoc : ∀ as t a u, run step s as = some t → P as t → step t a = some u → P (as ++ [a]) u)
    {as : List A} {t : S} (h : run step s as = some t) : P as t := by
  induction as using List.reverseRecOn generalizing t with
  | nil =>
    cases h
    exact nil
  | append_singleton as a ih =>
    obtain ⟨r, hr, ht⟩ := run_snoc.mp h
    exact snoc as r a t hr (ih hr) ht

theorem Inductive.run {I : S → Prop} (ind : Inductive step I) {s t : S} {as : List A}
    (hs : I s) (h : run step s as = some t) : I t := by
  induction as generalizing s with
  | nil =>
    cases h
    exact hs
  | cons a as ih =>
    obtain ⟨r, hr, ht⟩ := run_cons.mp h
    exact ih (ind s a r hs hr) ht

theorem Inductive.and {I J : S → Prop} (hI : Inductive step I)
    (hJ : ∀ s a t, I s → J s → step s a = some t → J t) :
    Inductive step (fun s => I s ∧ J s) :=
  fun s a t h hs => ⟨hI s a t h.1 hs, hJ s a t h.1 h.2 hs⟩

theorem Always.head {P : S → Prop} {s : S} {as : List A} (h : Always step P s as) : P s := by
  cases as with
  | nil => exact h
  | cons a as => exact h.1

theorem Always.mono {P Q : S → Prop} (hPQ : ∀ s, P s → Q s) {s : S} {as : List A}
    (h : Always step P s as) : Always step Q s as := by
  induction as generalizing s with
  | nil => exact hPQ s h
  | cons a as ih => exact ⟨hPQ s h.1, fun t ht => ih (h.2 t ht)⟩

/-- The recursive reading agrees with the plain one: `P` after every prefix. -/
theorem always_iff_prefix {P : S → Prop} {s : S} {as : List A} :
    Always step P s as ↔ ∀ bs, bs <+: as → ∀ t, run step s bs = some t → P t := by
  induction as generalizing s with
  | nil =>
    constructor
    · intro h bs hbs t ht
      rw [List.prefix_nil.mp hbs] at ht
      cases ht
      exact h
    · intro h
      exact h [] (List.prefix_refl _) s rfl
  | cons a as ih =>
    constructor
    · rintro ⟨hs, hnext⟩ bs hbs t ht
      cases bs with
      | nil =>
        cases ht
        exact hs
      | cons b bs =>
        obtain ⟨rfl, htail⟩ := List.cons_prefix_cons.mp hbs
        obtain ⟨r, hr, ht⟩ := run_cons.mp ht
        exact ih.mp (hnext r hr) bs htail t ht
    · intro h
      refine ⟨h [] (List.nil_prefix) s rfl, fun r hr => ih.mpr ?_⟩
      intro bs hbs t ht
      exact h (a :: bs) (List.cons_prefix_cons.mpr ⟨rfl, hbs⟩) t (run_cons.mpr ⟨r, hr, ht⟩)

theorem Always.last {P : S → Prop} {s t : S} {as : List A} (h : Always step P s as)
    (hrun : run step s as = some t) : P t :=
  always_iff_prefix.mp h as (List.prefix_refl _) t hrun

/-- A run refutes `P` by what a part `f` of its last state shows. -/
theorem not_always_of_run {β : Type w} {P : S → Prop} {s : S} {as : List A} {f : S → Option β}
    {b : β} (h : (run step s as).bind f = some b) (bad : ∀ t, f t = some b → ¬ P t) :
    ¬ Always step P s as := by
  intro hall
  obtain ⟨t, ht, hb⟩ := Option.bind_eq_some_iff.mp h
  exact bad t hb (hall.last ht)

theorem steps_append {Q : S → A → S → Prop} {s t : S} {as bs : List A}
    (hrun : run step s as = some t) :
    Steps step Q s (as ++ bs) ↔ Steps step Q s as ∧ Steps step Q t bs := by
  induction as generalizing s with
  | nil =>
    cases hrun
    simp [Steps]
  | cons a as ih =>
    obtain ⟨r, hr, ht⟩ := run_cons.mp hrun
    have same : ∀ r', step s a = some r' → r' = r := fun r' hr' =>
      Option.some.inj (hr'.symm.trans hr)
    constructor
    · intro h
      have hq := h r hr
      refine ⟨fun r' hr' => ?_, ((ih ht).mp hq.2).2⟩
      rw [same r' hr']
      exact ⟨hq.1, ((ih ht).mp hq.2).1⟩
    · rintro ⟨has, hbs⟩ r' hr'
      rw [same r' hr']
      exact ⟨(has r hr).1, (ih ht).mpr ⟨(has r hr).2, hbs⟩⟩

theorem steps_snoc {Q : S → A → S → Prop} {s : S} {as : List A} {a : A} :
    Steps step Q s (as ++ [a]) ↔ Steps step Q s as ∧
      ∀ t u, run step s as = some t → step t a = some u → Q t a u := by
  induction as generalizing s with
  | nil =>
    constructor
    · intro h
      refine ⟨trivial, fun t u ht hu => ?_⟩
      cases ht
      exact (h u hu).1
    · rintro ⟨-, hlast⟩ u hu
      exact ⟨hlast s u rfl hu, trivial⟩
  | cons b as ih =>
    constructor
    · intro h
      refine ⟨fun r hr => ⟨(h r hr).1, (ih.mp (h r hr).2).1⟩, fun t u ht hu => ?_⟩
      obtain ⟨r, hr, ht⟩ := run_cons.mp ht
      exact (ih.mp (h r hr).2).2 t u ht hu
    · rintro ⟨hbefore, hlast⟩ r hr
      refine ⟨(hbefore r hr).1, ih.mpr ⟨(hbefore r hr).2, fun t u ht hu => ?_⟩⟩
      exact hlast t u (run_cons.mpr ⟨r, hr, ht⟩) hu

theorem steps_and {Q R : S → A → S → Prop} {s : S} {as : List A} (hQ : Steps step Q s as)
    (hR : Steps step R s as) : Steps step (fun s a t => Q s a t ∧ R s a t) s as := by
  induction as generalizing s with
  | nil => trivial
  | cons a as ih =>
    intro t ht
    obtain ⟨hq, hqs⟩ := hQ t ht
    obtain ⟨hr, hrs⟩ := hR t ht
    exact ⟨⟨hq, hr⟩, ih hqs hrs⟩

/-- What every step does is done all along. -/
theorem steps_of_step {Q : S → A → S → Prop} (h : ∀ s a t, step s a = some t → Q s a t) {s : S}
    {as : List A} : Steps step Q s as := by
  induction as generalizing s with
  | nil => trivial
  | cons a as ih => exact fun t ht => ⟨h s a t ht, ih⟩

theorem steps_of_forall {Q : S → A → S → Prop} (h : ∀ s a t, Q s a t) {s : S} {as : List A} :
    Steps step Q s as := steps_of_step (fun s a t _ => h s a t)

/-- A condition on the actions alone. -/
theorem steps_of_mem {C : A → Prop} {s : S} {as : List A} (h : ∀ a ∈ as, C a) :
    Steps step (fun _ a _ => C a) s as := by
  induction as generalizing s with
  | nil => trivial
  | cons a as ih =>
    exact fun t _ => ⟨h a List.mem_cons_self, ih (fun b hb => h b (List.mem_cons_of_mem a hb))⟩

/-! The rules from here on take an inductive invariant `I` for granted. -/

theorem always_of_inductive {I : S → Prop} (ind : Inductive step I) {s : S} {as : List A}
    (hs : I s) : Always step I s as := by
  induction as generalizing s with
  | nil => exact hs
  | cons a as ih => exact ⟨hs, fun t ht => ih (ind s a t hs ht)⟩

theorem steps_mono {I : S → Prop} (ind : Inductive step I) {Q R : S → A → S → Prop}
    (hQR : ∀ s a t, I s → step s a = some t → Q s a t → R s a t)
    {s : S} {as : List A} (hs : I s) (h : Steps step Q s as) : Steps step R s as := by
  induction as generalizing s with
  | nil => trivial
  | cons a as ih =>
    intro t ht
    obtain ⟨hq, hrest⟩ := h t ht
    exact ⟨hQR s a t hs ht hq, ih (ind s a t hs ht) hrest⟩

theorem steps_congr {I : S → Prop} (ind : Inductive step I) {Q R : S → A → S → Prop}
    (hQR : ∀ s a t, I s → step s a = some t → (Q s a t ↔ R s a t))
    {s : S} {as : List A} (hs : I s) : Steps step Q s as ↔ Steps step R s as :=
  ⟨steps_mono ind (fun s a t hi ht => (hQR s a t hi ht).mp) hs,
    steps_mono ind (fun s a t hi ht => (hQR s a t hi ht).mpr) hs⟩

/-- What every good step keeps holds in every state of a run of good steps. -/
theorem always_of_steps {I : S → Prop} (ind : Inductive step I) {P : S → Prop}
    {Q : S → A → S → Prop}
    (keep : ∀ s a t, I s → P s → step s a = some t → Q s a t → P t)
    {s : S} {as : List A} (hs : I s) (hp : P s) (h : Steps step Q s as) :
    Always step P s as := by
  induction as generalizing s with
  | nil => exact hp
  | cons a as ih =>
    refine ⟨hp, fun t ht => ?_⟩
    obtain ⟨hq, hrest⟩ := h t ht
    exact ih (ind s a t hs ht) (keep s a t hs hp ht hq) hrest

/-- What such a step does moreover, knowing what the good steps before it kept. -/
theorem steps_of_steps {I : S → Prop} (ind : Inductive step I) {P : S → Prop}
    {Q R : S → A → S → Prop}
    (keep : ∀ s a t, I s → P s → step s a = some t → Q s a t → P t)
    (conclude : ∀ s a t, I s → P s → step s a = some t → Q s a t → R s a t)
    {s : S} {as : List A} (hs : I s) (hp : P s) (h : Steps step Q s as) :
    Steps step R s as := by
  induction as generalizing s with
  | nil => trivial
  | cons a as ih =>
    intro t ht
    obtain ⟨hq, hrest⟩ := h t ht
    exact ⟨conclude s a t hs hp ht hq, ih (ind s a t hs ht) (keep s a t hs hp ht hq) hrest⟩

/-- If, moreover, every bad step loses `P` at once, then `P` along the whole run
says exactly that the run has no bad step. -/
theorem always_iff_steps {I : S → Prop} (ind : Inductive step I) {P : S → Prop}
    {Q : S → A → S → Prop}
    (exact_step : ∀ s a t, I s → P s → step s a = some t → (P t ↔ Q s a t))
    {s : S} {as : List A} (hs : I s) (hp : P s) :
    Always step P s as ↔ Steps step Q s as := by
  constructor
  · intro h
    induction as generalizing s with
    | nil => trivial
    | cons a as ih =>
      intro t ht
      have hrest := h.2 t ht
      have hpt := hrest.head
      exact ⟨(exact_step s a t hs hp ht).mp hpt, ih (ind s a t hs ht) hpt hrest⟩
  · exact always_of_steps ind
      (fun s a t hi hp ht => (exact_step s a t hi hp ht).mpr) hs hp

/-- From any visited state on, what good steps keep stays true. -/
theorem keeps_of_steps {I : S → Prop} (ind : Inductive step I) {P : S → Prop}
    {Q : S → A → S → Prop}
    (keep : ∀ s a t, I s → P s → step s a = some t → Q s a t → P t)
    {s t u : S} {as bs : List A} (hs : I s) (h : Steps step Q s (as ++ bs))
    (hrun : run step s as = some t) (hp : P t) (hrest : run step t bs = some u) : P u :=
  (always_of_steps ind keep (ind.run hs hrun) hp ((steps_append hrun).mp h).2).last hrest

/-- From a state that is fine every step is good and leads to a fine state, or
dooms the run; so a run that does not end doomed has taken good steps only. -/
theorem steps_of_not_doomed {I : S → Prop} (ind : Inductive step I) {P D : S → Prop}
    {Q : S → A → S → Prop}
    (fine : ∀ s a t, I s → P s → step s a = some t → Q s a t ∧ P t ∨ D t)
    (doomed : ∀ s a t, I s → D s → step s a = some t → D t)
    {s u : S} {as : List A} (hs : I s) (hp : P s) (hrun : run step s as = some u)
    (safe : ¬ D u) : Steps step Q s as := by
  induction as generalizing s with
  | nil => trivial
  | cons a as ih =>
    obtain ⟨t, ht, hu⟩ := run_cons.mp hrun
    have hi := ind s a t hs ht
    rcases fine s a t hs hp ht with ⟨hq, hpt⟩ | hd
    · intro t' ht'
      cases ht.symm.trans ht'
      exact ⟨hq, ih hi hpt hu⟩
    · have stays := (ind.and (J := D) doomed).run ⟨hi, hd⟩ hu
      exact absurd stays.2 safe

/-- With steps that use up a measure, and one left from every state that is not
final, every state has a run to a final one. -/
theorem exists_run_of_measure {F : S → Prop} (measure : S → Nat)
    (uses : ∀ s a t, step s a = some t → measure t < measure s)
    (goes : ∀ s, ¬ F s → ∃ a t, step s a = some t) (s : S) :
    ∃ as t, run step s as = some t ∧ F t := by
  induction hm : measure s using Nat.strongRecOn generalizing s with
  | ind m ih =>
    by_cases hf : F s
    · exact ⟨[], s, rfl, hf⟩
    · obtain ⟨a, t, ht⟩ := goes s hf
      obtain ⟨as, u, hu, hfu⟩ := ih (measure t) (hm ▸ uses s a t ht) t rfl
      exact ⟨a :: as, u, run_cons.mpr ⟨t, ht, hu⟩, hfu⟩

end Runs
