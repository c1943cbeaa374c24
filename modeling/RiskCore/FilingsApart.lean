import RiskCore.ConcurrentFilings

/-!
# Filings that keep apart

When no call takes its snapshot beside another call of its year, and each finds
the next number free, the calls count on from the committed table and none fails.
A call that does not keep apart goes for a number that is taken or too long, and
from then on some call is going for such a number until one has failed.
-/

namespace FilingsApart

open Values ConcurrentFilings
open ClaimService hiding step init State
open ClaimNumbering hiding step

variable {k : Nat}

/-! ## Calls that keep apart -/

/-- No call has failed, and a call between its snapshot and its commit is the only
one of its year and still going for the next number of the committed table. -/
structure Serial (filings : Fin k → Filing) (s : State k) : Prop where
  working : ∀ n e, s.calls n ≠ .failed e
  current : ∀ n, (s.calls n).Underway → ∃ x, bid (filings n) (s.calls n) = some (.ok x) ∧
    generateClaimNumber s.db.claims (filings n).year = .ok x ∧ Fits x ∧ x ∉ numbers s.db
  alone : ∀ m n, (s.calls m).Underway → (s.calls n).Underway →
    (filings m).year = (filings n).year → m = n

section
variable {filings : Fin k → Filing} {s : State k} {n : Fin k}

theorem serial_init (db : Store) : Serial filings (init db) where
  working := by
    intro n e he
    cases he
  current := fun n hn => hn.elim
  alone := fun m n hm => hm.elim

theorem Serial.move (hs : Serial filings s) {p : Phase} (works : ∀ e, p ≠ .failed e)
    (current : p.Underway → ∃ x, bid (filings n) p = some (.ok x) ∧
      generateClaimNumber s.db.claims (filings n).year = .ok x ∧ Fits x ∧ x ∉ numbers s.db)
    (alone : p.Underway → ∀ m, m ≠ n → (s.calls m).Underway →
      (filings m).year ≠ (filings n).year) : Serial filings (s.move n p) where
  working := (forall_move s n p (fun _ q => ∀ e, q ≠ .failed e)).mpr
    ⟨works, fun m _ => hs.working m⟩
  current := (forall_move s n p (fun m q => q.Underway → ∃ x, bid (filings m) q = some (.ok x) ∧
      generateClaimNumber s.db.claims (filings m).year = .ok x ∧ Fits x ∧ x ∉ numbers s.db)).mpr
    ⟨current, fun m _ => hs.current m⟩
  alone := by
    intro m m' hm hm' hyear
    by_contra hne
    refine pairs_move (Q := fun m q m' q' => q.Underway → q'.Underway →
      (filings m).year ≠ (filings m').year) ?_ ?_ ?_ m m' hne hm hm' hyear
    · intro m q m' q' h hq' hq
      exact Ne.symm (h hq hq')
    · intro m m' hne hm hm' hyear
      exact hne (hs.alone m m' hm hm' hyear)
    · intro m hmn hp hm
      exact Ne.symm (alone hp m hmn hm)

/-- A call that goes on for the same number. -/
theorem Serial.advance (hs : Serial filings s) (underway : (s.calls n).Underway) {p : Phase}
    (same : bid (filings n) p = bid (filings n) (s.calls n)) : Serial filings (s.move n p) := by
  have hcurrent := hs.current n underway
  refine hs.move ?_ (fun _ => same ▸ hcurrent)
    (fun _ m hmn hm hyear => hmn (hs.alone m n hm underway hyear))
  rintro e rfl
  obtain ⟨x, hx, -⟩ := hcurrent
  cases same.trans hx

/-- The number committed is one of another year for all that are underway. -/
theorem Serial.commit (hs : Serial filings s) {lock : Option String} {x : String} {row : Row}
    (inserted : s.calls n = .inserted lock x row) :
    Serial filings (State.move { s with db := filed s.db (filings n) x } n (.committed x)) := by
  have underway : (s.calls n).Underway := by
    rw [inserted]
    trivial
  have others : ∀ m, m ≠ n → (State.move { s with db := filed s.db (filings n) x } n
      (.committed x)).calls m = s.calls m := fun m hmn => move_ne _ hmn _
  obtain ⟨x', hbid, hgenerate, -⟩ := hs.current n underway
  rw [inserted] at hbid
  cases hbid
  obtain ⟨i, hi⟩ := generate_number hgenerate
  have ended : ∀ m, ((State.move { s with db := filed s.db (filings n) x } n
      (.committed x)).calls m).Underway → m ≠ n := by
    rintro m hm rfl
    rw [move_self] at hm
    exact hm
  refine ⟨?_, ?_, ?_⟩
  · intro m e he
    by_cases hmn : m = n
    · subst hmn
      rw [move_self] at he
      cases he
    · rw [others m hmn] at he
      exact hs.working m e he
  · intro m hm
    have hmn := ended m hm
    rw [others m hmn] at hm ⊢
    obtain ⟨y, hbid, hy, fits, hnew⟩ := hs.current m hm
    have hyear : (filings m).year ≠ (filings n).year := fun h => hmn (hs.alone m n hm underway h)
    obtain ⟨j, hj⟩ := generate_number hy
    refine ⟨y, hbid, (generate_insert_other hyear hi).trans hy, fits, ?_⟩
    rw [move_db, numbers_filed, List.mem_append, List.mem_singleton, hi, hj]
    rintro (hold | heq)
    · exact hnew (hj ▸ hold)
    · exact number_ne hyear j i heq
  · intro m m' hm hm'
    have hmn := ended m hm
    have hmn' := ended m' hm'
    rw [others m hmn] at hm
    rw [others m' hmn'] at hm'
    exact hs.alone m m' hm hm'

theorem waiting_works {p : Phase} (h : p.Waiting) (e : ClaimError) : p ≠ .failed e := by
  rintro rfl
  exact h

theorem serial_step {db : Store} {t : State k} (sound : Sound db filings s)
    (hs : Serial filings s) (h : step filings s n = some t) (apart : Apart filings s n t) :
    Serial filings t := by
  cases step_sound h with
  | pick verified waits picked =>
    simp only [Apart, verified] at apart
    obtain ⟨x, hx, free⟩ := (nextFree_iff s.db (filings n).year_le).mp apart.2
    refine hs.move (waiting_works waits) (fun _ => ⟨x, ?_, hx, free⟩) (fun _ m _ => apart.1 m)
    rw [picked, hx]
  | lock picked read =>
    refine hs.advance ?_ ?_
    · rw [picked]
      trivial
    · rw [picked]
      exact congrArg some read.symm
  | unreadable picked read =>
    obtain ⟨x, hbid, -⟩ := hs.current n (by rw [picked]; trivial)
    rw [picked] at hbid
    cases read.symm.trans (Option.some.inj hbid)
  | refused numbered taken =>
    obtain ⟨x, hbid, -, fits, hnew⟩ := hs.current n (by rw [numbered]; trivial)
    rw [numbered] at hbid
    cases hbid
    refine absurd (taken (sound.unused n ?_) fits) hnew
    intro y hy
    cases numbered.symm.trans hy
  | insert numbered alone fits unused =>
    refine hs.advance ?_ ?_
    · rw [numbered]
      trivial
    · rw [numbered]
      rfl
  | write inserted more =>
    refine hs.advance ?_ ?_
    · rw [inserted]
      trivial
    · rw [inserted]
      rfl
  | commit inserted => exact hs.commit inserted

end

/-! ## Calls that do not -/

/-- The number is too long or in the table, or another call is going for it. -/
def Taken (filings : Fin k → Filing) (s : State k) (n : Fin k) (x : String) : Prop :=
  (Fits x → x ∈ numbers s.db) ∨ ∃ m, m ≠ n ∧ bid (filings m) (s.calls m) = some (.ok x)

/-- A call has failed, or one that has not inserted yet is going for a number that
is taken. -/
def Doomed (filings : Fin k → Filing) (s : State k) : Prop :=
  (∃ n e, s.calls n = .failed e) ∨ ∃ n, (s.calls n).Waiting ∧
    ∀ x, bid (filings n) (s.calls n) = some (.ok x) → Taken filings s n x

section
variable {filings : Fin k → Filing} {s t : State k} {n : Fin k}

theorem mem_numbers_step (h : Step filings s n t) {x : String} (hx : x ∈ numbers s.db) :
    x ∈ numbers t.db := by
  cases h with
  | commit inserted =>
    rw [move_db, numbers_filed]
    exact List.mem_append_left _ hx
  | _ => exact hx

/-- A call keeps its number until it fails. -/
theorem keeps_bid (h : Step filings s n t) {b : Except ClaimError String}
    (hb : bid (filings n) (s.calls n) = some b) :
    bid (filings n) (t.calls n) = some b ∨ ∃ e, t.calls n = .failed e := by
  cases h with
  | pick verified waits picked =>
    rw [verified] at hb
    cases hb
  | lock picked read =>
    rw [picked] at hb
    rw [move_self]
    exact Or.inl ((congrArg some read.symm).trans hb)
  | unreadable picked read => exact Or.inr ⟨_, move_self _ _ _⟩
  | refused numbered taken => exact Or.inr ⟨_, move_self _ _ _⟩
  | insert numbered alone fits unused =>
    rw [numbered] at hb
    rw [move_self]
    exact Or.inl hb
  | write inserted more =>
    rw [inserted] at hb
    rw [move_self]
    exact Or.inl hb
  | commit inserted =>
    rw [inserted] at hb
    rw [move_self]
    exact Or.inl hb

theorem failed_stays {e : ClaimError} (hn : s.calls n = .failed e) : step filings s n = none := by
  simp only [step, hn]

/-- Another call's step does not free a taken number. -/
theorem Taken.step {m : Fin k} {x : String} (taken : Taken filings s m x)
    (h : Step filings s n t) : Taken filings t m x ∨ ∃ e, t.calls n = .failed e := by
  rcases taken with hx | ⟨m', hne, hbid⟩
  · exact Or.inl (Or.inl (fun fits => mem_numbers_step h (hx fits)))
  · by_cases hmn : m' = n
    · subst hmn
      rcases keeps_bid h hbid with same | failed
      · exact Or.inl (Or.inr ⟨m', hne, same⟩)
      · exact Or.inr failed
    · exact Or.inl (Or.inr ⟨m', hne, by rw [h.other hmn, hbid]⟩)

/-- The doomed call itself gets its number only before another call that is still
going for it, which is doomed then. -/
theorem Doomed.own_step {db : Store} (sound : Sound db filings s) (waits : (s.calls n).Waiting)
    (taken : ∀ x, bid (filings n) (s.calls n) = some (.ok x) → Taken filings s n x)
    (h : Step filings s n t) : Doomed filings t := by
  cases h with
  | pick verified waits' picked =>
    rw [verified] at waits
    exact waits.elim
  | lock picked read =>
    refine Or.inr ⟨n, by rw [move_self]; trivial, fun x hx => ?_⟩
    rw [move_self] at hx
    have hbid : bid (filings n) (s.calls n) = some (.ok x) := by
      rw [picked]
      exact (congrArg some read).trans hx
    rcases taken x hbid with hold | ⟨m, hmn, hm⟩
    · exact Or.inl hold
    · exact Or.inr ⟨m, hmn, by rw [move_ne s hmn, hm]⟩
  | unreadable picked read => exact Or.inl ⟨n, _, move_self _ _ _⟩
  | refused numbered used => exact Or.inl ⟨n, _, move_self _ _ _⟩
  | insert numbered alone fits unused =>
    rename_i lock number
    rcases taken number (by rw [numbered]; rfl) with hold | ⟨m, hmn, hm⟩
    · exact absurd (hold fits) unused
    · have still : (s.calls m).Waiting := by
        cases hphase : s.calls m with
        | picked last => trivial
        | numbered lock' number' => trivial
        | inserted lock' number' row =>
          rw [hphase] at hm
          cases hm
          exact alone m (by rw [hphase]; rfl)
        | committed number' =>
          rw [hphase] at hm
          cases hm
          exact unused (sound.filed m number hphase).mem_numbers
        | verified =>
          rw [hphase] at hm
          cases hm
        | failed e =>
          rw [hphase] at hm
          cases hm
      refine Or.inr ⟨m, by rw [move_ne s hmn]; exact still, fun x hx => ?_⟩
      rw [move_ne s hmn, hm] at hx
      cases hx
      exact Or.inr ⟨n, Ne.symm hmn, by rw [move_self]; rfl⟩
  | write inserted more =>
    rw [inserted] at waits
    exact waits.elim
  | commit inserted =>
    rw [inserted] at waits
    exact waits.elim

theorem doomed_step {db : Store} (sound : Sound db filings s) (doomed : Doomed filings s)
    (h : step filings s n = some t) : Doomed filings t := by
  have hstep := step_sound h
  rcases doomed with ⟨m, e, hm⟩ | ⟨m, waits, taken⟩
  · have hmn : m ≠ n := by
      rintro rfl
      rw [failed_stays hm] at h
      cases h
    exact Or.inl ⟨m, e, by rw [hstep.other hmn, hm]⟩
  · by_cases hmn : m = n
    · subst hmn
      exact Doomed.own_step sound waits taken hstep
    · by_cases failed : ∃ e, t.calls n = .failed e
      · obtain ⟨e, he⟩ := failed
        exact Or.inl ⟨n, e, he⟩
      · refine Or.inr ⟨m, by rw [hstep.other hmn]; exact waits, fun x hx => ?_⟩
        rw [hstep.other hmn] at hx
        exact ((taken x hx).step hstep).resolve_right failed

theorem apart_of_ne (h : s.calls n ≠ .verified) : Apart filings s n t := by
  unfold Apart
  split
  · rename_i verified
    exact absurd verified h
  · trivial

/-- A snapshot beside another call of the year gives the number that call is going
for, and one where the next number is not free gives a number in the table. -/
theorem doomed_of_not_apart (hs : Serial filings s) (h : step filings s n = some t)
    (crowded : ¬ Apart filings s n t) : Doomed filings t := by
  have hverified : s.calls n = .verified := by
    by_contra hne
    exact crowded (apart_of_ne hne)
  cases step_sound h with
  | pick verified waits picked =>
    refine Or.inr ⟨n, by rw [move_self]; exact waits, fun x hx => ?_⟩
    rw [move_self, picked] at hx
    have hgenerate : generateClaimNumber s.db.claims (filings n).year = .ok x := Option.some.inj hx
    by_cases others : ∀ m, (s.calls m).Underway → (filings m).year ≠ (filings n).year
    · refine Or.inl ?_
      intro fits
      by_contra hnew
      have free := (nextFree_iff s.db (filings n).year_le).mpr ⟨x, hgenerate, fits, hnew⟩
      refine crowded ?_
      simp only [Apart, verified]
      exact ⟨others, free⟩
    · obtain ⟨m, hm⟩ := not_forall.mp others
      obtain ⟨underway, hyear⟩ := Classical.not_imp.mp hm
      obtain ⟨y, hbid, hy, -⟩ := hs.current m underway
      rw [not_not.mp hyear, hgenerate] at hy
      cases hy
      have hmn : m ≠ n := by
        rintro rfl
        rw [verified] at underway
        exact underway
      exact Or.inr ⟨m, hmn, by rw [move_ne s hmn, hbid]⟩
  | lock picked read => cases hverified.symm.trans picked
  | unreadable picked read => cases hverified.symm.trans picked
  | refused numbered taken => cases hverified.symm.trans numbered
  | insert numbered alone fits unused => cases hverified.symm.trans numbered
  | write inserted more => cases hverified.symm.trans inserted
  | commit inserted => cases hverified.symm.trans inserted

end

/-! ## Whole runs -/

/-- No call has failed, and each that has committed has filed its claim. -/
structure Fine (db : Store) (filings : Fin k → Filing) (s : State k) : Prop where
  working : ∀ n e, s.calls n ≠ .failed e
  filed : ∀ n x, s.calls n = .committed x → Filed db filings s n x

theorem filed_iff_not_doomed {db : Store} {filings : Fin k → Filing} {s : State k}
    (sound : Sound db filings s) (ended : Ended s) :
    (∀ n, ∃ x, Filed db filings s n x) ↔ ¬ Doomed filings s := by
  constructor
  · rintro hfiled (⟨n, e, hn⟩ | ⟨n, waits, -⟩)
    · obtain ⟨x, hx⟩ := hfiled n
      cases hx.committed.symm.trans hn
    · obtain ⟨x, hx⟩ := hfiled n
      rw [hx.committed] at waits
      exact waits
  · intro safe n
    rcases ended n with ⟨x, hx⟩ | ⟨e, he⟩
    · exact ⟨x, sound.filed n x hx⟩
    · exact absurd (Or.inl ⟨n, e, he⟩) safe

/-- Calls that keep apart never fail and their numbers are new and distinct; in a
run that has ended every call has filed its claim exactly when they kept apart;
and every run can be ended. -/
theorem filings_commit_iff_apart {db : Store} {filings : Fin k → Filing}
    (drawn : Drawn db filings) (schedule : List (Fin k)) :
    (Runs.Steps (step filings) (Apart filings) (init db) schedule →
      Runs.Always (step filings) (Fine db filings) (init db) schedule) ∧
    (∀ s, Runs.run (step filings) (init db) schedule = some s → Ended s →
      ((∀ n, ∃ x, Filed db filings s n x) ↔
        Runs.Steps (step filings) (Apart filings) (init db) schedule)) ∧
    (∀ s, Runs.run (step filings) (init db) schedule = some s →
      ∃ rest s', Runs.run (step filings) s rest = some s' ∧ Ended s') := by
  have fine : Runs.Steps (step filings) (Apart filings) (init db) schedule →
      Runs.Always (step filings) (Fine db filings) (init db) schedule := fun apart =>
    (Runs.always_of_steps (I := fun _ => True)
      (P := fun s => Sound db filings s ∧ Serial filings s) (fun _ _ _ _ _ => trivial)
      (fun s n t _ hs h apart => ⟨sound_step drawn s n t hs.1 h, serial_step hs.1 hs.2 h apart⟩)
      trivial ⟨sound_init drawn, serial_init db⟩ apart).mono
      (fun s hs => ⟨hs.2.working, hs.1.filed⟩)
  refine ⟨fine, fun s hrun ended => ⟨fun hfiled => ?_, fun apart n => ?_⟩, fun s _ => ?_⟩
  · have sound := (sound_step drawn).run (sound_init drawn) hrun
    refine Runs.steps_of_not_doomed (sound_step drawn) (P := Serial filings) (D := Doomed filings)
      ?_ (fun s n t sound doomed h => doomed_step sound doomed h) (sound_init drawn)
      (serial_init db) hrun ((filed_iff_not_doomed sound ended).mp hfiled)
    intro s n t sound hs h
    by_cases apart : Apart filings s n t
    · exact Or.inl ⟨apart, serial_step sound hs h apart⟩
    · exact Or.inr (doomed_of_not_apart hs h apart)
  · have hfine := (fine apart).last hrun
    rcases ended n with ⟨x, hx⟩ | ⟨e, he⟩
    · exact ⟨x, hfine.filed n x hx⟩
    · exact absurd he (hfine.working n e)
  · exact Runs.exists_run_of_measure work (fun _ _ _ => work_lt) (fun _ => not_ended_goes) s

/-- Two claims of one day. -/
def exampleCalls : Fin 2 → Filing := fun n => exampleFiling n.val

theorem exampleCalls_drawn : Drawn empty exampleCalls where
  distinct := by decide
  unused := fun _ => rfl

/-- One call after the other. -/
def inTurn : List (Fin 2) := [0, 0, 0, 0, 0, 1, 1, 1, 1, 1, 1]

theorem inTurn_filed : ∃ s, Runs.run (step exampleCalls) (init empty) inTurn = some s ∧
    ∀ n, ∃ x, Filed empty exampleCalls s n x := by
  refine ⟨_, rfl, ((filings_commit_iff_apart exampleCalls_drawn inTurn).2.1 _ rfl ?_).mpr ?_⟩
  · intro n
    match n with
    | 0 => exact Or.inl ⟨_, rfl⟩
    | 1 => exact Or.inl ⟨_, rfl⟩
  · decide +kernel

/-- Both look for the last number before either has committed. -/
def together : List (Fin 2) := [0, 1, 0, 0, 0, 0, 1]

theorem together_refused : Drawn empty exampleCalls ∧
    ∃ s, Runs.run (step exampleCalls) (init empty) together = some s ∧ Ended s ∧
      s.calls 0 = .committed "CLM-2025-000001" ∧
      s.calls 1 = .failed (.integrityError "claim_number") := by
  refine ⟨exampleCalls_drawn, _, rfl, ?_, rfl, rfl⟩
  intro n
  match n with
  | 0 => exact Or.inl ⟨_, rfl⟩
  | 1 => exact Or.inr ⟨_, rfl⟩

end FilingsApart
