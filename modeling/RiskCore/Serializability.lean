import RiskCore.Requests

/-!
# Serial runs of concurrent calls

A call served alone reads, checks and commits with nothing in between. A run of
concurrent calls is serializable in the order of its commits when serving the
calls that wrote, alone and in that order, leads to the same database. This says
of every transaction that it does what its call would do from a fresh read.
-/

namespace Serializability

open Requests

variable {DB Call Err Env : Type} {View : Call → Type} {S : Service DB Call View Err Env}

/-- A call with the answers from outside to its read and to its transaction. -/
structure Solo (Call Env : Type) where
  readEnv : Env
  commitEnv : Env
  call : Call

def Solo.committed (r : Solo Call Env) : Env × Call := (r.commitEnv, r.call)

def alone (S : Service DB Call View Err Env) (db : DB) (r : Solo Call Env) : Option DB :=
  (do
    let v ← S.read db r.readEnv r.call
    S.check r.call v
    S.commit db r.commitEnv r.call v : Except Err DB).toOption

theorem alone_some {db db' : DB} {r : Solo Call Env} :
    alone S db r = some db' ↔ ∃ v, S.read db r.readEnv r.call = .ok v ∧
      S.check r.call v = .ok () ∧ S.commit db r.commitEnv r.call v = .ok db' := by
  constructor
  · intro h
    obtain ⟨v, hread, hrest⟩ := bind_ok.mp (toOption_some h)
    obtain ⟨⟨⟩, hcheck, hcommit⟩ := bind_ok.mp hrest
    exact ⟨v, hread, hcheck, hcommit⟩
  · rintro ⟨v, hread, hcheck, hcommit⟩
    simp [alone, hread, hcheck, hcommit, bind, Except.bind, Except.toOption]

/-- The calls that commit and write, with the answers their transactions got. -/
def commits (S : Service DB Call View Err Env) (writes : Call → Bool) :
    State DB Call View Err → Action Call Env → List (Env × Call) :=
  told S (fun env c _ _ => if writes c then [(env, c)] else [])

/-- Served alone and in this order, the calls lead from `db` to `db'`. -/
def Serial (S : Service DB Call View Err Env) (db : DB) (calls : List (Env × Call)) (db' : DB) :
    Prop :=
  ∃ rs : List (Solo Call Env), rs.map Solo.committed = calls ∧ Runs.run (alone S) db rs = some db'

/-- Served alone now, the call would leave `db'`. -/
def Fresh (S : Service DB Call View Err Env) (db : DB) (env : Env) (c : Call) (db' : DB) : Prop :=
  ∃ readEnv, alone S db ⟨readEnv, env, c⟩ = some db'

theorem serial_nil {db db' : DB} : Serial S db [] db' ↔ db = db' := by
  constructor
  · rintro ⟨rs, hnone, hrun⟩
    rw [List.map_eq_nil_iff.mp hnone] at hrun
    exact Option.some.inj hrun
  · rintro rfl
    exact ⟨[], rfl, rfl⟩

theorem serial_snoc {db db' : DB} {calls : List (Env × Call)} {env : Env} {c : Call} :
    Serial S db (calls ++ [(env, c)]) db' ↔
      ∃ db₁, Serial S db calls db₁ ∧ Fresh S db₁ env c db' := by
  constructor
  · rintro ⟨rs, hcalls, hrun⟩
    obtain ⟨before, last, rfl, hbefore, hlast⟩ := List.map_eq_append_iff.mp hcalls
    obtain ⟨r, rfl, hr⟩ := List.map_eq_singleton_iff.mp hlast
    cases hr
    obtain ⟨db₁, hrun₁, hstep⟩ := Runs.run_snoc.mp hrun
    exact ⟨db₁, ⟨before, hbefore, hrun₁⟩, r.readEnv, hstep⟩
  · rintro ⟨db₁, ⟨rs, rfl, hbefore⟩, readEnv, hstep⟩
    exact ⟨rs ++ [⟨readEnv, env, c⟩], by simp [Solo.committed],
      Runs.run_snoc.mpr ⟨db₁, hbefore, hstep⟩⟩

section
variable {writes : Call → Bool}

/-- The transaction of a writing call does what the call would do alone. -/
def AsAlone (S : Service DB Call View Err Env) (writes : Call → Bool)
    (s : State DB Call View Err) (a : Action Call Env) (_ : State DB Call View Err) : Prop :=
  ∀ n env c v db', a = .commit n env → s.calls n = .checked c v →
    S.commit s.db env c v = .ok db' → writes c = true → Fresh S s.db env c db'

/-- The run up to `t` is serializable. -/
def SerialTo (S : Service DB Call View Err Env) (writes : Call → Bool)
    (s : State DB Call View Err) (as : List (Action Call Env))
    (t : State DB Call View Err) : Prop :=
  Serial S s.db (Runs.journal (step S) (commits S writes) s as) t.db

/-- Where the answers from outside do not enter a view, a call served alone has one
outcome. -/
theorem Fresh.unique
    (views : ∀ db env env' c v v', S.read db env c = .ok v → S.read db env' c = .ok v' → v = v')
    {db db₁ db₂ : DB} {env : Env} {c : Call} (h₁ : Fresh S db env c db₁)
    (h₂ : Fresh S db env c db₂) : db₁ = db₂ := by
  obtain ⟨env₁, h₁⟩ := h₁
  obtain ⟨env₂, h₂⟩ := h₂
  obtain ⟨v₁, hread₁, -, hcommit₁⟩ := alone_some.mp h₁
  obtain ⟨v₂, hread₂, -, hcommit₂⟩ := alone_some.mp h₂
  cases views db env₁ env₂ c v₁ v₂ hread₁ hread₂
  exact Except.ok.inj (hcommit₁.symm.trans hcommit₂)

theorem Serial.unique
    (views : ∀ db env env' c v v', S.read db env c = .ok v → S.read db env' c = .ok v' → v = v')
    {db : DB} {calls : List (Env × Call)} : ∀ {db₁ db₂ : DB}, Serial S db calls db₁ →
      Serial S db calls db₂ → db₁ = db₂ := by
  induction calls using List.reverseRecOn with
  | nil =>
    intro db₁ db₂ h₁ h₂
    exact (serial_nil.mp h₁).symm.trans (serial_nil.mp h₂)
  | append_singleton calls last ih =>
    intro db₁ db₂ h₁ h₂
    obtain ⟨before₁, hbefore₁, hlast₁⟩ := serial_snoc.mp h₁
    obtain ⟨before₂, hbefore₂, hlast₂⟩ := serial_snoc.mp h₂
    cases ih hbefore₁ hbefore₂
    exact hlast₁.unique views hlast₂

theorem step_commits {s t : State DB Call View Err} {a : Action Call Env}
    (h : step S s a = some t) : (t.db = s.db ∧ commits S writes s a = []) ∨
      ∃ n env c v, a = .commit n env ∧ s.calls n = .checked c v ∧
        S.commit s.db env c v = .ok t.db ∧
        commits S writes s a = if writes c then [(env, c)] else [] :=
  step_told h

theorem asAlone_iff {s t : State DB Call View Err} {n : Nat} {env : Env} {c : Call} {v : View c}
    {db : DB} (at_n : s.calls n = .checked c v) (hc : S.commit s.db env c v = .ok db) :
    AsAlone S writes s (.commit n env) t ↔ (writes c = true → Fresh S s.db env c db) := by
  constructor
  · exact fun h hwrites => h n env c v db rfl at_n hc hwrites
  · intro h n' env' c' v' db' ha hn' hc' hwrites
    cases ha
    cases at_n.symm.trans hn'
    cases hc.symm.trans hc'
    exact h hwrites

/-- One step of a run that was serializable so far. -/
theorem serialTo_snoc_iff
    (views : ∀ db env env' c v v', S.read db env c = .ok v → S.read db env' c = .ok v' → v = v')
    (quiet : ∀ db env c v db', writes c = false → S.commit db env c v = .ok db' → db' = db)
    {s t u : State DB Call View Err} {as : List (Action Call Env)} {a : Action Call Env}
    (hrun : Runs.run (step S) s as = some t) (hserial : SerialTo S writes s as t)
    (hst : step S t a = some u) :
    SerialTo S writes s (as ++ [a]) u ↔ AsAlone S writes t a u := by
  rw [SerialTo, Runs.journal_snoc hrun]
  rcases step_commits hst with ⟨same, nothing⟩ | ⟨n, env, c, v, rfl, at_n, hc, hcommits⟩
  · rw [nothing, List.append_nil, same]
    refine iff_of_true hserial ?_
    intro n env c v db' ha at_n hc hwrites
    subst ha
    simp [commits, told, at_n, hc, hwrites] at nothing
  · rw [asAlone_iff at_n hc, hcommits]
    by_cases hwrites : writes c = true
    · rw [if_pos hwrites, serial_snoc]
      constructor
      · rintro ⟨db₁, hbefore, hlast⟩ -
        rwa [hserial.unique views hbefore]
      · exact fun h => ⟨t.db, hserial, h hwrites⟩
    · rw [if_neg hwrites, List.append_nil, quiet _ _ _ _ _ (by simpa using hwrites) hc]
      exact iff_of_true hserial (fun h => absurd h hwrites)

/-- A run is serializable up to each of its states iff every transaction that
writes does what its call would do alone. -/
theorem serialTo_iff_asAlone
    (views : ∀ db env env' c v v', S.read db env c = .ok v → S.read db env' c = .ok v' → v = v')
    (quiet : ∀ db env c v db', writes c = false → S.commit db env c v = .ok db' → db' = db)
    (s : State DB Call View Err) (as : List (Action Call Env)) :
    (∀ pre t, pre <+: as → Runs.run (step S) s pre = some t → SerialTo S writes s pre t) ↔
      Runs.Steps (step S) (AsAlone S writes) s as := by
  induction as using List.reverseRecOn with
  | nil =>
    refine iff_of_true (fun pre t hpre hrun => ?_) trivial
    rw [List.prefix_nil.mp hpre] at hrun ⊢
    cases hrun
    exact serial_nil.mpr rfl
  | append_singleton as a ih =>
    constructor
    · intro hall
      have hsteps := ih.mp (fun pre t hpre => hall pre t (hpre.trans (List.prefix_append as [a])))
      refine Runs.steps_snoc.mpr ⟨hsteps, fun t u hrun hst => ?_⟩
      refine (serialTo_snoc_iff views quiet hrun ?_ hst).mp ?_
      · exact hall as t (List.prefix_append as [a]) hrun
      · exact hall (as ++ [a]) u (List.prefix_refl _) (Runs.run_snoc.mpr ⟨t, hrun, hst⟩)
    · intro hsteps pre u hpre hrun
      obtain ⟨hbefore, hlast⟩ := Runs.steps_snoc.mp hsteps
      rcases List.prefix_concat_iff.mp hpre with rfl | hpre
      · obtain ⟨t, ht, hst⟩ := Runs.run_snoc.mp hrun
        have hserial := ih.mpr hbefore as t (List.prefix_refl as) ht
        exact (serialTo_snoc_iff views quiet ht hserial hst).mpr (hlast t u ht hst)
      · exact ih.mpr hbefore pre u hpre hrun

/-- The rule for a service: where, of coherent states, a writing transaction does
what its call would do alone exactly if `C` holds of it, a run is serializable
all along iff its transactions meet `C`. -/
theorem serializable_iff {I : DB → Prop} {K : DB → (c : Call) → View c → Prop}
    {C : DB → (c : Call) → View c → DB → Prop}
    (ind : Runs.Inductive (step S) (Coherent S I K))
    (views : ∀ db env env' c v v', S.read db env c = .ok v → S.read db env' c = .ok v' → v = v')
    (quiet : ∀ db env c v db', writes c = false → S.commit db env c v = .ok db' → db' = db)
    (fresh_iff : ∀ db env c v db', K db c v → S.check c v = .ok () →
      S.commit db env c v = .ok db' → ((writes c = true → Fresh S db env c db') ↔ C db c v db'))
    {s : State DB Call View Err} (hs : Coherent S I K s) (as : List (Action Call Env)) :
    (∀ pre t, pre <+: as → Runs.run (step S) s pre = some t → SerialTo S writes s pre t) ↔
      Runs.Steps (step S) (OnCommit S C) s as := by
  refine (serialTo_iff_asAlone views quiet s as).trans (Runs.steps_congr ind ?_ hs)
  intro s a t hco hst
  rcases step_db hst with ⟨_, still⟩ | ⟨n, env, c, v, rfl, at_n, hc, _⟩
  · refine iff_of_true (fun n env c v db' ha at_n hc _ => ?_) (still C)
    exact (still (fun _ _ _ _ => False) n env c v db' ha at_n hc).elim
  · have hv := hco.views n c v (Or.inr (Or.inl at_n))
    have hpass := hco.passed n c v (Or.inl at_n)
    rw [onCommit_iff at_n hc, asAlone_iff at_n hc]
    exact fresh_iff s.db env c v t.db hv hpass hc

end

end Serializability
