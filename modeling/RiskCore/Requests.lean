import Mathlib.Logic.Function.Basic
import RiskCore.Runs

/-!
# Concurrent calls with unlocked reads

A call reads what it needs without a lock, checks what it read, and then runs
one transaction. The transaction either commits a new database state or raises,
in which case it is rolled back and nothing is written. Between the three
steps of a call any number of steps of other calls may be taken, and a call
may be killed before its transaction has committed.

`Coherent` is the general invariant of such a system: a property of the
database, what remains true of every view still or once held, and the fact that
only views that passed the check reach the transaction.
-/

namespace Requests

/-- The three steps of a call. `Env` is what the outside world answers: clock
readings, random identifiers, the replies of other services. -/
structure Service (DB Call : Type) (View : Call → Type) (Err Env : Type) where
  read : DB → Env → (c : Call) → Except Err (View c)
  check : (c : Call) → View c → Except Err Unit
  commit : DB → Env → (c : Call) → View c → Except Err DB

/-- `refused` is a read that failed, `raised` an error of the check or of the
transaction, `aborted` a call killed from outside. -/
inductive Phase (Call : Type) (View : Call → Type) (Err : Type) where
  | idle
  | started (c : Call)
  | refused (c : Call) (e : Err)
  | viewed (c : Call) (v : View c)
  | checked (c : Call) (v : View c)
  | committed (c : Call) (v : View c)
  | raised (c : Call) (v : View c) (e : Err)
  | aborted (c : Call)

structure State (DB Call : Type) (View : Call → Type) (Err : Type) where
  db : DB
  calls : Nat → Phase Call View Err

inductive Action (Call Env : Type) where
  | call (n : Nat) (c : Call)
  | read (n : Nat) (env : Env)
  | check (n : Nat)
  | commit (n : Nat) (env : Env)
  | abort (n : Nat)

variable {DB Call Err Env : Type} {View : Call → Type}

/-- The call a phase belongs to while it can still be killed. -/
def Phase.live : Phase Call View Err → Option Call
  | .started c => some c
  | .viewed c _ => some c
  | .checked c _ => some c
  | _ => none

def init (db : DB) : State DB Call View Err := ⟨db, fun _ => .idle⟩

def State.put (s : State DB Call View Err) (n : Nat) (p : Phase Call View Err) :
    State DB Call View Err :=
  { s with calls := Function.update s.calls n p }

@[simp] theorem State.put_db (s : State DB Call View Err) (n : Nat)
    (p : Phase Call View Err) : (s.put n p).db = s.db := rfl

@[simp] theorem State.put_self (s : State DB Call View Err) (n : Nat)
    (p : Phase Call View Err) : (s.put n p).calls n = p := by
  simp [State.put]

@[simp] theorem State.put_other (s : State DB Call View Err) {n m : Nat} (h : m ≠ n)
    (p : Phase Call View Err) : (s.put n p).calls m = s.calls m := by
  simp [State.put, h]

def step (S : Service DB Call View Err Env) (s : State DB Call View Err) :
    Action Call Env → Option (State DB Call View Err)
  | .call n c =>
    match s.calls n with
    | .idle => some (s.put n (.started c))
    | _ => none
  | .read n env =>
    match s.calls n with
    | .started c =>
      match S.read s.db env c with
      | .ok v => some (s.put n (.viewed c v))
      | .error e => some (s.put n (.refused c e))
    | _ => none
  | .check n =>
    match s.calls n with
    | .viewed c v =>
      match S.check c v with
      | .ok _ => some (s.put n (.checked c v))
      | .error e => some (s.put n (.raised c v e))
    | _ => none
  | .commit n env =>
    match s.calls n with
    | .checked c v =>
      match S.commit s.db env c v with
      | .ok db => some ⟨db, Function.update s.calls n (.committed c v)⟩
      | .error e => some (s.put n (.raised c v e))
    | _ => none
  | .abort n =>
    match (s.calls n).live with
    | some c => some (s.put n (.aborted c))
    | none => none

/-- What one step can do, case by case. -/
inductive Step (S : Service DB Call View Err Env) (s : State DB Call View Err) :
    Action Call Env → State DB Call View Err → Prop where
  | call {n c} (at_n : s.calls n = .idle) : Step S s (.call n c) (s.put n (.started c))
  | viewed {n env c v} (at_n : s.calls n = .started c) (hr : S.read s.db env c = .ok v) :
      Step S s (.read n env) (s.put n (.viewed c v))
  | refused {n env c e} (at_n : s.calls n = .started c) (hr : S.read s.db env c = .error e) :
      Step S s (.read n env) (s.put n (.refused c e))
  | checked {n c v} (at_n : s.calls n = .viewed c v) (hc : S.check c v = .ok ()) :
      Step S s (.check n) (s.put n (.checked c v))
  | checkRaised {n c v e} (at_n : s.calls n = .viewed c v) (hc : S.check c v = .error e) :
      Step S s (.check n) (s.put n (.raised c v e))
  | committed {n env c v db} (at_n : s.calls n = .checked c v)
      (hc : S.commit s.db env c v = .ok db) :
      Step S s (.commit n env) ⟨db, Function.update s.calls n (.committed c v)⟩
  | commitRaised {n env c v e} (at_n : s.calls n = .checked c v)
      (hc : S.commit s.db env c v = .error e) :
      Step S s (.commit n env) (s.put n (.raised c v e))
  | aborted {n c} (at_n : (s.calls n).live = some c) :
      Step S s (.abort n) (s.put n (.aborted c))

variable {S : Service DB Call View Err Env}

theorem step_sound {s t : State DB Call View Err} {a : Action Call Env}
    (h : step S s a = some t) : Step S s a t := by
  cases a with
  | call n c =>
    simp only [step] at h
    split at h
    · rename_i at_n
      cases h
      exact .call at_n
    · cases h
  | read n env =>
    simp only [step] at h
    split at h
    · rename_i c at_n
      split at h
      · rename_i v hr
        cases h
        exact .viewed at_n hr
      · rename_i e hr
        cases h
        exact .refused at_n hr
    · cases h
  | check n =>
    simp only [step] at h
    split at h
    · rename_i c v at_n
      split at h
      · rename_i hc
        cases h
        exact .checked at_n hc
      · rename_i e hc
        cases h
        exact .checkRaised at_n hc
    · cases h
  | commit n env =>
    simp only [step] at h
    split at h
    · rename_i c v at_n
      split at h
      · rename_i db hc
        cases h
        exact .committed at_n hc
      · rename_i e hc
        cases h
        exact .commitRaised at_n hc
    · cases h
  | abort n =>
    simp only [step] at h
    split at h
    · rename_i c at_n
      cases h
      exact .aborted at_n
    · cases h

theorem step_complete {s t : State DB Call View Err} {a : Action Call Env}
    (h : Step S s a t) : step S s a = some t := by
  cases h with
  | call at_n => simp only [step, at_n]
  | viewed at_n hr => simp only [step, at_n, hr]
  | refused at_n hr => simp only [step, at_n, hr]
  | checked at_n hc => simp only [step, at_n, hc]
  | checkRaised at_n hc => simp only [step, at_n, hc]
  | committed at_n hc => simp only [step, at_n, hc]
  | commitRaised at_n hc => simp only [step, at_n, hc]
  | aborted at_n => simp only [step, at_n]

/-- The view a call works from, or worked from when it ended. -/
def Phase.Holds (p : Phase Call View Err) (c : Call) (v : View c) : Prop :=
  p = .viewed c v ∨ p = .checked c v ∨ p = .committed c v ∨ ∃ e, p = .raised c v e

structure Coherent (S : Service DB Call View Err Env) (I : DB → Prop)
    (K : DB → (c : Call) → View c → Prop) (s : State DB Call View Err) : Prop where
  db : I s.db
  views : ∀ n c v, (s.calls n).Holds c v → K s.db c v
  passed : ∀ n c v, s.calls n = .checked c v ∨ s.calls n = .committed c v →
    S.check c v = .ok ()

section Invariant
variable {I : DB → Prop} {K : DB → (c : Call) → View c → Prop}

theorem coherent_init {db : DB} (hI : I db) : Coherent S I K (init db) where
  db := hI
  views := by
    intro n c v h
    rcases h with h | h | h | ⟨e, h⟩ <;> cases h
  passed := by
    intro n c v h
    rcases h with h | h <;> cases h

theorem Coherent.put {s : State DB Call View Err} (h : Coherent S I K s) (n : Nat)
    {p : Phase Call View Err} (hviews : ∀ c v, p.Holds c v → K s.db c v)
    (hpassed : ∀ c v, p = .checked c v ∨ p = .committed c v → S.check c v = .ok ()) :
    Coherent S I K (s.put n p) where
  db := h.db
  views := by
    intro m c v hm
    by_cases hmn : m = n
    · subst m
      exact hviews c v (by simpa [State.put] using hm)
    · exact h.views m c v (by simpa [State.put, hmn] using hm)
  passed := by
    intro m c v hm
    by_cases hmn : m = n
    · subst m
      exact hpassed c v (by simpa [State.put] using hm)
    · exact h.passed m c v (by simpa [State.put, hmn] using hm)

/-- The invariant rule: a read establishes `K` of its view, and a transaction
that commits keeps `I` and keeps `K` of every view held by any call. -/
theorem coherent_inductive
    (hread : ∀ db env c v, I db → S.read db env c = .ok v → K db c v)
    (hcommit : ∀ db env c v db', I db → K db c v → S.check c v = .ok () →
      S.commit db env c v = .ok db' → I db' ∧ ∀ c' v', K db c' v' → K db' c' v') :
    Runs.Inductive (step S) (Coherent S I K) := by
  intro s a t h hs
  cases step_sound hs with
  | call at_n =>
    refine h.put _ ?_ ?_
    · rintro c' v' (hp | hp | hp | ⟨e, hp⟩) <;> cases hp
    · rintro c' v' (hp | hp) <;> cases hp
  | @viewed n env c v at_n hr =>
    refine h.put _ ?_ ?_
    · rintro c' v' (hp | hp | hp | ⟨e, hp⟩) <;> cases hp
      exact hread s.db env c v h.db hr
    · rintro c' v' (hp | hp) <;> cases hp
  | refused at_n hr =>
    refine h.put _ ?_ ?_
    · rintro c' v' (hp | hp | hp | ⟨e, hp⟩) <;> cases hp
    · rintro c' v' (hp | hp) <;> cases hp
  | @checked n c v at_n hc =>
    have hv : K s.db c v := h.views n c v (Or.inl at_n)
    refine h.put _ ?_ ?_
    · rintro c' v' (hp | hp | hp | ⟨e, hp⟩) <;> cases hp
      exact hv
    · rintro c' v' (hp | hp) <;> cases hp
      exact hc
  | @checkRaised n c v e at_n hc =>
    have hv : K s.db c v := h.views n c v (Or.inl at_n)
    refine h.put _ ?_ ?_
    · rintro c' v' (hp | hp | hp | ⟨e, hp⟩) <;> cases hp
      exact hv
    · rintro c' v' (hp | hp) <;> cases hp
  | @committed n env c v db at_n hc =>
    have hv : K s.db c v := h.views n c v (Or.inr (Or.inl at_n))
    have hpass := h.passed n c v (Or.inl at_n)
    obtain ⟨hdb, hkeep⟩ := hcommit s.db env c v db h.db hv hpass hc
    -- the database moves first, with every view still in place; then call n ends
    have moved : Coherent S I K ⟨db, s.calls⟩ :=
      ⟨hdb, fun m c' v' hm => hkeep c' v' (h.views m c' v' hm), h.passed⟩
    refine moved.put n ?_ ?_
    · rintro c' v' (hp | hp | hp | ⟨e, hp⟩) <;> cases hp
      exact hkeep c v hv
    · rintro c' v' (hp | hp) <;> cases hp
      exact hpass
  | @commitRaised n env c v e at_n hc =>
    have hv : K s.db c v := h.views n c v (Or.inr (Or.inl at_n))
    refine h.put _ ?_ ?_
    · rintro c' v' (hp | hp | hp | ⟨e, hp⟩) <;> cases hp
      exact hv
    · rintro c' v' (hp | hp) <;> cases hp
  | aborted at_n =>
    refine h.put _ ?_ ?_
    · rintro c' v' (hp | hp | hp | ⟨e, hp⟩) <;> cases hp
    · rintro c' v' (hp | hp) <;> cases hp

end Invariant

/-- A condition on the transactions that commit: database, call and view before
it, database after it. -/
def OnCommit (S : Service DB Call View Err Env) (C : DB → (c : Call) → View c → DB → Prop)
    (s : State DB Call View Err) (a : Action Call Env) (_ : State DB Call View Err) : Prop :=
  ∀ n env c v db', a = .commit n env → s.calls n = .checked c v →
    S.commit s.db env c v = .ok db' → C s.db c v db'

instance decidableOnCommit {C : DB → (c : Call) → View c → DB → Prop}
    [∀ db c v db', Decidable (C db c v db')] (s : State DB Call View Err) :
    ∀ a t, Decidable (OnCommit S C s a t)
  | .commit n env, _ =>
    match hn : s.calls n with
    | .checked c v =>
      match hc : S.commit s.db env c v with
      | .ok db =>
        if h : C s.db c v db then
          isTrue (fun _ _ _ _ _ ha hm hcm => by
            cases ha
            cases hn.symm.trans hm
            cases hc.symm.trans hcm
            exact h)
        else isFalse (fun hall => h (hall n env c v db rfl hn hc))
      | .error e => isTrue (fun _ _ _ _ _ ha hm hcm => by
          cases ha
          cases hn.symm.trans hm
          cases hc.symm.trans hcm)
    | .idle | .started _ | .refused _ _ | .viewed _ _ | .committed _ _ | .raised _ _ _
    | .aborted _ => isTrue (fun _ _ _ _ _ ha hm _ => by
        cases ha
        cases hn.symm.trans hm)
  | .call _ _, _ | .read _ _, _ | .check _, _ | .abort _, _ =>
    isTrue (fun _ _ _ _ _ ha => by cases ha)

/-- Only a committing transaction changes the database. -/
theorem step_db {s t : State DB Call View Err} {a : Action Call Env}
    (h : step S s a = some t) :
    (t.db = s.db ∧ ∀ C, OnCommit S C s a t) ∨
      ∃ n env c v, a = .commit n env ∧ s.calls n = .checked c v ∧
        S.commit s.db env c v = .ok t.db ∧
        t.calls = Function.update s.calls n (.committed c v) := by
  cases step_sound h with
  | @committed n env c v db at_n hc => exact Or.inr ⟨n, env, c, v, rfl, at_n, hc, rfl⟩
  | @commitRaised n env c v e at_n hc =>
    refine Or.inl ⟨rfl, ?_⟩
    intro C m env' c' v' db' ha hm hcm
    cases ha
    cases at_n.symm.trans hm
    cases hc.symm.trans hcm
  | _ =>
    refine Or.inl ⟨rfl, ?_⟩
    intro C m env' c' v' db' ha
    cases ha

/-- What every transaction keeps of the database, every step keeps. -/
theorem db_inductive {P : DB → Prop}
    (keep : ∀ db env c v db', S.commit db env c v = .ok db' → P db → P db') :
    Runs.Inductive (step S) (fun s => P s.db) := by
  intro s a t hP h
  rcases step_db h with ⟨same, -⟩ | ⟨n, env, c, v, -, -, hc, -⟩
  · rw [same]
    exact hP
  · exact keep _ env c v _ hc hP

/-- What the transactions that commit have to tell; the others tell nothing. -/
def told {β : Type} (S : Service DB Call View Err Env)
    (tell : Env → (c : Call) → View c → DB → List β) (s : State DB Call View Err) :
    Action Call Env → List β
  | .commit n env =>
    match s.calls n with
    | .checked c v =>
      match S.commit s.db env c v with
      | .ok db => tell env c v db
      | .error _ => []
    | _ => []
  | _ => []

theorem step_told {β : Type} {tell : Env → (c : Call) → View c → DB → List β}
    {s t : State DB Call View Err} {a : Action Call Env} (h : step S s a = some t) :
    (t.db = s.db ∧ told S tell s a = []) ∨
      ∃ n env c v, a = .commit n env ∧ s.calls n = .checked c v ∧
        S.commit s.db env c v = .ok t.db ∧ told S tell s a = tell env c v t.db := by
  cases step_sound h with
  | @committed n env c v db at_n hc =>
    exact Or.inr ⟨n, env, c, v, rfl, at_n, hc, by simp only [told, at_n, hc]⟩
  | commitRaised at_n hc => exact Or.inl ⟨rfl, by simp only [told, at_n, hc]⟩
  | _ => exact Or.inl ⟨rfl, rfl⟩

/-- The call a phase is about. -/
def Phase.about : Phase Call View Err → Option Call
  | .idle => none
  | .started c => some c
  | .refused c _ => some c
  | .viewed c _ => some c
  | .checked c _ => some c
  | .committed c _ => some c
  | .raised c _ _ => some c
  | .aborted c => some c

/-- A handle stays with the call it was given. -/
theorem step_about {s t : State DB Call View Err} {a : Action Call Env}
    (h : step S s a = some t) {m : Nat} {c : Call} (about : (t.calls m).about = some c) :
    (s.calls m).about = some c ∨ a = .call m c := by
  -- a phase of the same call
  have moves : ∀ (n : Nat) (p : Phase Call View Err), p.about = (s.calls n).about →
      (Function.update s.calls n p m).about = some c → (s.calls m).about = some c := by
    intro n p same hm
    by_cases hmn : m = n
    · subst m
      rw [Function.update_self, same] at hm
      exact hm
    · rwa [Function.update_of_ne hmn] at hm
  cases step_sound h with
  | @call n c' at_n =>
    by_cases hmn : m = n
    · subst m
      rw [State.put_self] at about
      cases about
      exact Or.inr rfl
    · rw [State.put_other _ hmn] at about
      exact Or.inl about
  | viewed at_n hr => exact Or.inl (moves _ _ (by rw [at_n]; rfl) about)
  | refused at_n hr => exact Or.inl (moves _ _ (by rw [at_n]; rfl) about)
  | checked at_n hc => exact Or.inl (moves _ _ (by rw [at_n]; rfl) about)
  | checkRaised at_n hc => exact Or.inl (moves _ _ (by rw [at_n]; rfl) about)
  | committed at_n hc => exact Or.inl (moves _ _ (by rw [at_n]; rfl) about)
  | commitRaised at_n hc => exact Or.inl (moves _ _ (by rw [at_n]; rfl) about)
  | @aborted n c' at_n =>
    refine Or.inl (moves n (.aborted c') ?_ about)
    cases hn : s.calls n with
    | started c => rw [hn] at at_n; exact at_n.symm
    | viewed c v => rw [hn] at at_n; exact at_n.symm
    | checked c v => rw [hn] at at_n; exact at_n.symm
    | _ => rw [hn] at at_n; cases at_n

/-- A call is committed from the step that commits it on. -/
theorem step_committed {s t : State DB Call View Err} {a : Action Call Env}
    (h : step S s a = some t) (m : Nat) (c : Call) (v : View c) :
    t.calls m = .committed c v ↔ s.calls m = .committed c v ∨
      ∃ env, a = .commit m env ∧ s.calls m = .checked c v ∧
        ∃ db, S.commit s.db env c v = .ok db := by
  -- a step that neither leaves nor enters the committed phase
  have moves : ∀ (n : Nat) (p : Phase Call View Err), (∀ c v, s.calls n ≠ .committed c v) →
      (∀ c v, p ≠ .committed c v) →
      (Function.update s.calls n p m = .committed c v ↔ s.calls m = .committed c v) := by
    intro n p hold hnew
    by_cases hm : m = n
    · subst m
      simp [hold c v, hnew c v]
    · simp [hm]
  cases step_sound h with
  | @call n c' at_n =>
    simpa [State.put] using moves n (.started c') (by simp [at_n]) (by simp)
  | @viewed n env c' v' at_n hr =>
    simpa [State.put] using moves n (.viewed c' v') (by simp [at_n]) (by simp)
  | @refused n env c' e at_n hr =>
    simpa [State.put] using moves n (.refused c' e) (by simp [at_n]) (by simp)
  | @checked n c' v' at_n hc =>
    simpa [State.put] using moves n (.checked c' v') (by simp [at_n]) (by simp)
  | @checkRaised n c' v' e at_n hc =>
    simpa [State.put] using moves n (.raised c' v' e) (by simp [at_n]) (by simp)
  | @committed n env c' v' db at_n hc =>
    by_cases hm : m = n
    · subst m
      simp only [Function.update_self, at_n, reduceCtorEq, false_or]
      constructor
      · intro he
        cases he
        exact ⟨env, rfl, rfl, db, hc⟩
      · rintro ⟨_, _, he, _⟩
        cases he
        rfl
    · have other : n ≠ m := fun he => hm he.symm
      simp [hm, other]
  | @commitRaised n env c' v' e at_n hc =>
    have still : s.calls m = .committed c v ∨ (∃ env', (Action.commit n env : Action Call Env) =
        .commit m env' ∧ s.calls m = .checked c v ∧ ∃ db, S.commit s.db env' c v = .ok db) ↔
        s.calls m = .committed c v := by
      refine or_iff_left ?_
      rintro ⟨env', ha, hm, db, hdb⟩
      cases ha
      cases at_n.symm.trans hm
      cases hc.symm.trans hdb
    rw [still]
    exact moves n (.raised c' v' e) (by simp [at_n]) (by simp)
  | @aborted n c' at_n =>
    have live : ∀ c v, s.calls n ≠ .committed c v := by
      intro c v he
      rw [he] at at_n
      cases at_n
    simpa [State.put] using moves n (.aborted c') live (by simp)

theorem committed_of_quiet {s t : State DB Call View Err} {a : Action Call Env}
    (h : step S s a = some t) (quiet : ∀ C, OnCommit S C s a t) (m : Nat) (c : Call)
    (v : View c) : t.calls m = .committed c v ↔ s.calls m = .committed c v := by
  rw [step_committed h]
  refine or_iff_left ?_
  rintro ⟨env, ha, hm, db, hc⟩
  exact quiet (fun _ _ _ _ => False) m env c v db ha hm hc

/-- A call that raises has written nothing. -/
theorem raising_keeps_db {s t : State DB Call View Err} {a : Action Call Env}
    (h : step S s a = some t) {n : Nat} {c : Call} {v : View c} {e : Err}
    (hn : t.calls n = .raised c v e) : s.calls n = .raised c v e ∨ t.db = s.db := by
  rcases step_db h with ⟨same, _⟩ | ⟨m, env, c', v', rfl, at_m, hc, ht⟩
  · exact Or.inr same
  · by_cases hnm : n = m
    · rw [ht, hnm, Function.update_self] at hn
      cases hn
    · rw [ht, Function.update_of_ne hnm] at hn
      exact Or.inl hn

section Errors
variable {I : DB → Prop} {K : DB → (c : Call) → View c → Prop}
  {E : (c : Call) → View c → Err → Prop}

/-- The errors calls end with are those of the check and of the transaction. -/
theorem raised_inductive (ind : Runs.Inductive (step S) (Coherent S I K))
    (hcheck : ∀ c v e, S.check c v = .error e → E c v e)
    (hcommit : ∀ db env c v e, I db → K db c v → S.commit db env c v = .error e → E c v e) :
    Runs.Inductive (step S) (fun s => Coherent S I K s ∧
      ∀ n c v e, s.calls n = .raised c v e → E c v e) := by
  refine ind.and (J := fun s => ∀ n c v e, s.calls n = .raised c v e → E c v e) ?_
  intro s a t h hE hst
  -- only the phase of the acting call has changed
  have moved : ∀ n (p : Phase Call View Err), (∀ c v e, p = .raised c v e → E c v e) →
      ∀ m c v e, Function.update s.calls n p m = .raised c v e → E c v e := by
    intro n p hp m c v e hm
    by_cases hmn : m = n
    · rw [hmn, Function.update_self] at hm
      exact hp c v e hm
    · rw [Function.update_of_ne hmn] at hm
      exact hE m c v e hm
  cases step_sound hst with
  | @checkRaised n c v e at_n hc =>
    refine moved n _ ?_
    intro c' v' e' hp
    cases hp
    exact hcheck c v e hc
  | @commitRaised n env c v e at_n hc =>
    refine moved n _ ?_
    intro c' v' e' hp
    cases hp
    exact hcommit s.db env c v e h.db (h.views n c v (Or.inr (Or.inl at_n))) hc
  | _ =>
    refine moved _ _ ?_
    intro c' v' e' hp
    cases hp

end Errors

/-! ## Effects of committed calls -/

section Effects
variable {Id V : Type}

/-- Call `n` has committed with the effect `v` on the object `id`; `effect` says
what a committed call does to which object. -/
def DoneBy (effect : Call → Option (Id × V)) (s : State DB Call View Err) (id : Id) (n : Nat)
    (v : V) : Prop :=
  ∃ c view, s.calls n = .committed c view ∧ effect c = some (id, v)

/-- The effect on `id` is `v` and due to a single call, or there has been none. -/
def DoneOnce (effect : Call → Option (Id × V)) (s : State DB Call View Err) (id : Id) :
    Option V → Prop
  | some v => ∃ n, DoneBy effect s id n v ∧ ∀ m w, DoneBy effect s id m w → m = n
  | none => ∀ m w, ¬ DoneBy effect s id m w

variable {effect : Call → Option (Id × V)}

theorem doneBy_quiet {s t : State DB Call View Err} {a : Action Call Env}
    (h : step S s a = some t) (quiet : ∀ C, OnCommit S C s a t) (id : Id) (m : Nat) (w : V) :
    DoneBy effect t id m w ↔ DoneBy effect s id m w := by
  simp only [DoneBy, committed_of_quiet h quiet]

theorem doneBy_commit {s t : State DB Call View Err} {n : Nat} {c : Call} {v : View c}
    (at_n : s.calls n = .checked c v)
    (ht : t.calls = Function.update s.calls n (.committed c v)) (id : Id) (m : Nat) (w : V) :
    DoneBy effect t id m w ↔ DoneBy effect s id m w ∨ m = n ∧ effect c = some (id, w) := by
  constructor
  · rintro ⟨c', view, hm, he⟩
    rw [ht] at hm
    by_cases hmn : m = n
    · subst m
      rw [Function.update_self] at hm
      cases hm
      exact Or.inr ⟨rfl, he⟩
    · rw [Function.update_of_ne hmn] at hm
      exact Or.inl ⟨c', view, hm, he⟩
  · rintro (⟨c', view, hm, he⟩ | ⟨rfl, he⟩)
    · have hmn : m ≠ n := by
        rintro rfl
        cases at_n.symm.trans hm
      exact ⟨c', view, by rw [ht, Function.update_of_ne hmn]; exact hm, he⟩
    · exact ⟨c, v, by rw [ht, Function.update_self], he⟩

/-- What is committed stays committed. -/
theorem DoneBy.step {s t : State DB Call View Err} {a : Action Call Env}
    (h : step S s a = some t) {id : Id} {n : Nat} {w : V} (hd : DoneBy effect s id n w) :
    DoneBy effect t id n w := by
  obtain ⟨c, view, hn, he⟩ := hd
  exact ⟨c, view, (step_committed h n c view).mpr (Or.inl hn), he⟩

theorem DoneOnce.congr {s t : State DB Call View Err} {id : Id} {v : Option V}
    (h : DoneOnce effect s id v)
    (same : ∀ m w, DoneBy effect t id m w ↔ DoneBy effect s id m w) :
    DoneOnce effect t id v := by
  cases v with
  | none => exact fun m w hm => h m w ((same m w).mp hm)
  | some v =>
    obtain ⟨n, hn, only⟩ := h
    exact ⟨n, (same n v).mpr hn, fun m w hm => only m w ((same m w).mp hm)⟩

/-- A commit without an effect on `id`. -/
theorem DoneOnce.other {s t : State DB Call View Err} {n : Nat} {c : Call} {view : View c}
    (at_n : s.calls n = .checked c view)
    (ht : t.calls = Function.update s.calls n (.committed c view)) {id : Id} {v : Option V}
    (h : DoneOnce effect s id v) (without : ∀ w, effect c ≠ some (id, w)) :
    DoneOnce effect t id v :=
  h.congr (fun m w => (doneBy_commit at_n ht id m w).trans
    (or_iff_left (fun he => without w he.2)))

/-- The first commit with an effect on `id`. -/
theorem DoneOnce.first {s t : State DB Call View Err} {n : Nat} {c : Call} {view : View c}
    (at_n : s.calls n = .checked c view)
    (ht : t.calls = Function.update s.calls n (.committed c view)) {id : Id} {v : V}
    (h : DoneOnce effect s id none) (he : effect c = some (id, v)) :
    DoneOnce effect t id (some v) := by
  refine ⟨n, (doneBy_commit at_n ht id n v).mpr (Or.inr ⟨rfl, he⟩), fun m w hm => ?_⟩
  rcases (doneBy_commit at_n ht id m w).mp hm with hm | ⟨rfl, _⟩
  · exact absurd hm (h m w)
  · rfl

end Effects

theorem onCommit_iff {C : DB → (c : Call) → View c → DB → Prop}
    {s t : State DB Call View Err} {n : Nat} {env : Env} {c : Call} {v : View c} {db : DB}
    (at_n : s.calls n = .checked c v) (hc : S.commit s.db env c v = .ok db) :
    OnCommit S C s (.commit n env) t ↔ C s.db c v db := by
  constructor
  · intro h
    exact h n env c v db rfl at_n hc
  · intro h m env' c' v' db' ha hm hcm
    cases ha
    cases at_n.symm.trans hm
    cases hc.symm.trans hcm
    exact h

section Exactness
variable {I : DB → Prop} {K : DB → (c : Call) → View c → Prop}

/-- A database property that every committing transaction meeting `C` keeps is
kept by every step that meets `C`. -/
theorem step_keeps_db {P : DB → Prop} {C : DB → (c : Call) → View c → DB → Prop}
    (keep : ∀ db env c v db', I db → K db c v → S.check c v = .ok () → P db →
      S.commit db env c v = .ok db' → C db c v db' → P db')
    {s t : State DB Call View Err} {a : Action Call Env} (h : Coherent S I K s) (hp : P s.db)
    (hst : step S s a = some t) (hC : OnCommit S C s a t) : P t.db := by
  rcases step_db hst with ⟨same, _⟩ | ⟨n, env, c, v, rfl, at_n, hc, _⟩
  · rw [same]
    exact hp
  · exact keep s.db env c v t.db h.db (h.views n c v (Or.inr (Or.inl at_n)))
      (h.passed n c v (Or.inl at_n)) hp hc ((onCommit_iff at_n hc).mp hC)

/-- A database property that a committing transaction keeps exactly when `C`
holds of it: along any run it holds throughout iff every transaction that
commits meets `C`. -/
theorem always_db_iff (ind : Runs.Inductive (step S) (Coherent S I K)) {P : DB → Prop}
    {C : DB → (c : Call) → View c → DB → Prop}
    (exact_commit : ∀ db env c v db', I db → K db c v → S.check c v = .ok () → P db →
      S.commit db env c v = .ok db' → (P db' ↔ C db c v db'))
    {s : State DB Call View Err} {as : List (Action Call Env)}
    (hs : Coherent S I K s) (hp : P s.db) :
    Runs.Always (step S) (fun t => P t.db) s as ↔ Runs.Steps (step S) (OnCommit S C) s as := by
  refine Runs.always_iff_steps ind ?_ hs hp
  intro s a t h hp hst
  rcases step_db hst with ⟨same, quiet⟩ | ⟨n, env, c, v, rfl, at_n, hc, _⟩
  · rw [same]
    exact iff_of_true hp (quiet C)
  · have hv := h.views n c v (Or.inr (Or.inl at_n))
    have hpass := h.passed n c v (Or.inl at_n)
    rw [onCommit_iff at_n hc]
    exact exact_commit s.db env c v t.db h.db hv hpass hp hc

/-- Two conditions that agree on every coherent commit agree on every run. -/
theorem steps_onCommit_congr (ind : Runs.Inductive (step S) (Coherent S I K))
    {C D : DB → (c : Call) → View c → DB → Prop}
    (same : ∀ db env c v db', I db → K db c v → S.check c v = .ok () →
      S.commit db env c v = .ok db' → (C db c v db' ↔ D db c v db'))
    {s : State DB Call View Err} {as : List (Action Call Env)} (hs : Coherent S I K s) :
    Runs.Steps (step S) (OnCommit S C) s as ↔ Runs.Steps (step S) (OnCommit S D) s as := by
  refine Runs.steps_congr ind ?_ hs
  intro s a t h hst
  rcases step_db hst with ⟨_, quiet⟩ | ⟨n, env, c, v, rfl, at_n, hc, _⟩
  · exact iff_of_true (quiet C) (quiet D)
  · have hv := h.views n c v (Or.inr (Or.inl at_n))
    have hpass := h.passed n c v (Or.inl at_n)
    rw [onCommit_iff at_n hc, onCommit_iff at_n hc]
    exact same s.db env c v t.db h.db hv hpass hc

end Exactness

/-! ## One call after the other -/

/-- A call from its start to its end with nothing in between. -/
def serve (S : Service DB Call View Err Env) (db : DB) (env : Env) (c : Call) : Except Err DB := do
  let v ← S.read db env c
  S.check c v
  S.commit db env c v

/-- A refused call leaves the database as it was. -/
def serveStep (S : Service DB Call View Err Env) (db : DB) (r : Env × Call) : Option DB :=
  match serve S db r.1 r.2 with
  | .ok db' => some db'
  | .error _ => some db

/-- Two steps that may fail succeed when both do. -/
theorem bind_ok {α β ε : Type} {x : Except ε α} {f : α → Except ε β} {b : β} :
    (x >>= f) = .ok b ↔ ∃ a, x = .ok a ∧ f a = .ok b := by
  cases x with
  | error e => simp [bind, Except.bind]
  | ok a => simp [bind, Except.bind]

theorem toOption_some {α ε : Type} {x : Except ε α} {a : α} (h : x.toOption = some a) :
    x = .ok a := by
  cases x with
  | error e => cases h
  | ok b => exact congrArg Except.ok (Option.some.inj h)

theorem serve_ok {db db' : DB} {env : Env} {c : Call} :
    serve S db env c = .ok db' ↔
      ∃ v, S.read db env c = .ok v ∧ S.check c v = .ok () ∧ S.commit db env c v = .ok db' := by
  simp only [serve, bind_ok]
  constructor
  · rintro ⟨v, hr, ⟨⟩, hc, hdb⟩
    exact ⟨v, hr, hc, hdb⟩
  · rintro ⟨v, hr, hc, hdb⟩
    exact ⟨v, hr, (), hc, hdb⟩

/-- Serving one call is a run of the concurrent system in which only that call
takes steps. -/
theorem serve_run {s : State DB Call View Err} {n : Nat} (idle : s.calls n = .idle) (env : Env)
    (c : Call) : ∃ as t, Runs.run (step S) s as = some t ∧
      serveStep S s.db (env, c) = some t.db ∧ ∀ m, m ≠ n → t.calls m = s.calls m := by
  have called := step_complete (S := S) (Step.call (c := c) idle)
  cases hr : S.read s.db env c with
  | error e =>
    have refused : step S (s.put n (.started c)) (.read n env) = some _ :=
      step_complete (Step.refused (s.put_self n (.started c)) hr)
    refine ⟨[.call n c, .read n env], _, Runs.run_cons.mpr ⟨_, called,
      Runs.run_cons.mpr ⟨_, refused, rfl⟩⟩, ?_, ?_⟩
    · simp [serveStep, serve, hr, bind, Except.bind]
    · intro m hm
      simp [hm]
  | ok v =>
    have viewed : step S (s.put n (.started c)) (.read n env) = some _ :=
      step_complete (Step.viewed (s.put_self n (.started c)) hr)
    have at_view := (s.put n (.started c)).put_self n (.viewed c v)
    cases hc : S.check c v with
    | error e =>
      have raised := step_complete (Step.checkRaised at_view hc)
      refine ⟨[.call n c, .read n env, .check n], _, Runs.run_cons.mpr ⟨_, called,
        Runs.run_cons.mpr ⟨_, viewed, Runs.run_cons.mpr ⟨_, raised, rfl⟩⟩⟩, ?_, ?_⟩
      · simp [serveStep, serve, hr, hc, bind, Except.bind]
      · intro m hm
        simp [hm]
    | ok u =>
      have checked := step_complete (Step.checked at_view hc)
      have at_check := ((s.put n (.started c)).put n (.viewed c v)).put_self n (.checked c v)
      cases hw : S.commit s.db env c v with
      | error e =>
        have raised : step S _ (.commit n env) = some _ :=
          step_complete (Step.commitRaised at_check hw)
        refine ⟨[.call n c, .read n env, .check n, .commit n env], _, Runs.run_cons.mpr
          ⟨_, called, Runs.run_cons.mpr ⟨_, viewed, Runs.run_cons.mpr ⟨_, checked,
            Runs.run_cons.mpr ⟨_, raised, rfl⟩⟩⟩⟩, ?_, ?_⟩
        · simp [serveStep, serve, hr, hc, hw, bind, Except.bind]
        · intro m hm
          simp [hm]
      | ok db =>
        have committed : step S _ (.commit n env) = some _ :=
          step_complete (Step.committed at_check hw)
        refine ⟨[.call n c, .read n env, .check n, .commit n env], _, Runs.run_cons.mpr
          ⟨_, called, Runs.run_cons.mpr ⟨_, viewed, Runs.run_cons.mpr ⟨_, checked,
            Runs.run_cons.mpr ⟨_, committed, rfl⟩⟩⟩⟩, ?_, ?_⟩
        · simp [serveStep, serve, hr, hc, hw, bind, Except.bind]
        · intro m hm
          simp [hm]

/-- Calls served one after the other make a run of the concurrent system, from
any state with calls to spare. -/
theorem sequential_run {rs : List (Env × Call)} {db : DB} :
    ∀ {s : State DB Call View Err} {k : Nat}, (∀ m, k ≤ m → s.calls m = .idle) →
      Runs.run (serveStep S) s.db rs = some db →
      ∃ as t, Runs.run (step S) s as = some t ∧ t.db = db := by
  induction rs with
  | nil =>
    intro s k _ h
    exact ⟨[], s, rfl, Option.some.inj h⟩
  | cons r rs ih =>
    intro s k spare h
    obtain ⟨db₁, hserve, hrest⟩ := Runs.run_cons.mp h
    obtain ⟨as, t, has, hdb, others⟩ := serve_run (S := S) (spare k (Nat.le_refl k)) r.1 r.2
    have hsame : t.db = db₁ := Option.some.inj (hdb.symm.trans hserve)
    have spare' : ∀ m, k + 1 ≤ m → t.calls m = .idle := by
      intro m hm
      rw [others m (by omega)]
      exact spare m (by omega)
    obtain ⟨bs, u, hbs, hu⟩ := ih spare' (hsame ▸ hrest)
    exact ⟨as ++ bs, u, Runs.run_append.mpr ⟨t, has, hbs⟩, hu⟩

end Requests
