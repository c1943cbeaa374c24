import RiskCore.Offsets
import RiskCore.Tables

/-!
# Deliveries in any order

The messages of a set reach a handler one at a time, in any order and any number
of times, and a crash takes the handler down wherever it is. What a handler does
that recognises the messages it has recorded depends only on which messages it
was left to finish: the rows in the end are those of the messages, up to order.
-/

namespace Deliveries

open Offsets

universe u v w x
variable {M : Type u} {D : Type v} {P : Type w} {O : Type x}

/-- `ended` is the history of the messages whose handler came to an end. -/
structure State (M : Type u) (D : Type v) (P : Type w) where
  store : D
  current : Option (M × P)
  ended : List M

inductive Action (M : Type u) (O : Type x) where
  | deliver (m : M)
  | call (o : O)
  | crash

def init (store : D) : State M D P := ⟨store, none, []⟩

/-- The handler of `m` has gone on to `next`. -/
def State.proceed (s : State M D P) (m : M) (store : D) : Next P → State M D P
  | .goto p => { s with store := store, current := some (m, p) }
  | .commit => ⟨store, none, s.ended ++ [m]⟩
  | .leave => ⟨store, none, s.ended ++ [m]⟩
  | .die => ⟨store, none, s.ended ++ [m]⟩

def step (h : Handler M D P O) (s : State M D P) : Action M O → Option (State M D P)
  | .deliver m =>
    match s.current with
    | none => some { s with current := some (m, h.start) }
    | some _ => none
  | .call o =>
    match s.current with
    | none => none
    | some (m, p) => (h.next m p o s.store).map (fun r => s.proceed m r.1 r.2)
  | .crash => some { s with current := none }

section
variable (h : Handler M D P O) (sent : M → Prop) (allowed : D → P → O → Prop)
  (I : D → Prop) (ready : D → M → P → Prop) (recorded : D → M → Prop)

/-- Only messages of the set are delivered, and calls have allowed outcomes. -/
def Permitted (s : State M D P) (a : Action M O) (_ : State M D P) : Prop :=
  match a with
  | .deliver m => sent m
  | .call o => ∀ m p, s.current = some (m, p) → allowed s.store p o
  | .crash => True

/-- Where a call leads: on to a point where `ready` holds, or to an end with the
message recorded. -/
def Leads (store : D) (m : M) : Next P → Prop
  | .goto p => ready store m p
  | .commit => recorded store m
  | .leave => recorded store m
  | .die => recorded store m

/-- What the calls of the handler owe, one by one. -/
structure Keeps : Prop where
  start : ∀ {store m}, I store → sent m → ready store m h.start
  call : ∀ {m p o store store' next}, I store → sent m → ready store m p →
    allowed store p o → h.next m p o store = some (store', next) →
    I store' ∧ (∀ m', recorded store m' → recorded store' m') ∧
      Leads ready recorded store' m next

structure Consistent (s : State M D P) : Prop where
  store : I s.store
  current : ∀ m p, s.current = some (m, p) → sent m ∧ ready s.store m p
  ended : ∀ m ∈ s.ended, recorded s.store m

variable {h sent allowed I ready recorded}

theorem Consistent.proceed {s : State M D P} (hs : Consistent sent I ready recorded s) {m : M}
    {store : D} {next : Next P} (hm : sent m) (hI : I store)
    (grows : ∀ m', recorded s.store m' → recorded store m')
    (leads : Leads ready recorded store m next) :
    Consistent sent I ready recorded (s.proceed m store next) := by
  have hended : recorded store m → ∀ m' ∈ s.ended ++ [m], recorded store m' := by
    intro own m' hm'
    rcases List.mem_append.mp hm' with hm' | hm'
    · exact grows m' (hs.ended m' hm')
    · rw [List.mem_singleton.mp hm']
      exact own
  have hnone : ∀ m' p', (none : Option (M × P)) = some (m', p') → sent m' ∧ ready store m' p' := by
    intro m' p' hc
    cases hc
  cases next with
  | goto p =>
    refine ⟨hI, ?_, fun m' hm' => grows m' (hs.ended m' hm')⟩
    intro m' p' hc
    cases hc
    exact ⟨hm, leads⟩
  | commit => exact ⟨hI, hnone, hended leads⟩
  | leave => exact ⟨hI, hnone, hended leads⟩
  | die => exact ⟨hI, hnone, hended leads⟩

theorem consistent_step (keeps : Keeps h sent allowed I ready recorded) {s t : State M D P}
    {a : Action M O} (hs : Consistent sent I ready recorded s) (hst : step h s a = some t)
    (permitted : Permitted sent allowed s a t) : Consistent sent I ready recorded t := by
  cases a with
  | deliver m =>
    simp only [step] at hst
    split at hst
    · cases hst
      refine ⟨hs.store, ?_, hs.ended⟩
      intro m' p' hc
      cases hc
      exact ⟨permitted, keeps.start hs.store permitted⟩
    · cases hst
  | call o =>
    simp only [step] at hst
    split at hst
    · cases hst
    · rename_i m p busy
      obtain ⟨⟨store, next⟩, hnext, rfl⟩ := Option.map_eq_some_iff.mp hst
      obtain ⟨hm, hready⟩ := hs.current m p busy
      obtain ⟨hI, grows, leads⟩ := keeps.call hs.store hm hready (permitted m p busy) hnext
      exact hs.proceed hm hI grows leads
  | crash =>
    cases hst
    refine ⟨hs.store, ?_, hs.ended⟩
    intro m' p' hc
    cases hc

/-- After any run of permitted deliveries, what was left to end is recorded. -/
theorem run_consistent (keeps : Keeps h sent allowed I ready recorded) {store : D}
    (start : I store) {as : List (Action M O)} {s : State M D P}
    (permitted : Runs.Steps (step h) (Permitted sent allowed) (init store) as)
    (hrun : Runs.run (step h) (init store) as = some s) :
    I s.store ∧ ∀ m ∈ s.ended, recorded s.store m := by
  have hinit : Consistent sent I ready recorded (init store : State M D P) := by
    refine ⟨start, ?_, ?_⟩
    · intro m p hc
      cases hc
    · intro m hm
      cases hm
  have hall := Runs.always_of_steps (I := fun _ => True) (fun _ _ _ _ _ => trivial)
    (fun s a t _ hs hst hq => consistent_step keeps hs hst hq) trivial hinit permitted
  have hlast := hall.last hrun
  exact ⟨hlast.store, hlast.ended⟩

end

/-- What is delivered and what calls answer can be looked at apart. -/
theorem steps_permitted {h : Handler M D P O} {sent : M → Prop} {allowed : D → P → O → Prop}
    {s : State M D P} {as : List (Action M O)} (hsent : ∀ m, .deliver m ∈ as → sent m)
    (hcalls : Runs.Steps (step h) (Permitted (fun _ => True) allowed) s as) :
    Runs.Steps (step h) (Permitted sent allowed) s as := by
  induction as generalizing s with
  | nil => trivial
  | cons a as ih =>
    intro t ht
    obtain ⟨ha, hrest⟩ := hcalls t ht
    refine ⟨?_, ih (fun m hm => hsent m (List.mem_cons_of_mem a hm)) hrest⟩
    cases a with
    | deliver m => exact hsent m List.mem_cons_self
    | call o => exact ha
    | crash => trivial

instance {allowed : D → P → O → Prop} [decide_allowed : ∀ store p o, Decidable (allowed store p o)]
    (s : State M D P) : ∀ a t, Decidable (Permitted (fun _ => True) allowed s a t)
  | .deliver _, _ => isTrue trivial
  | .crash, _ => isTrue trivial
  | .call o, _ =>
    match h : s.current with
    | none => isTrue (fun _ _ hc => by rw [h] at hc; cases hc)
    | some (m, p) =>
      have := decide_allowed s.store p o
      decidable_of_iff (allowed s.store p o)
        ⟨fun ha m' p' hc => by rw [h] at hc; cases hc; exact ha, fun hall => hall m p h⟩

/-! ## Deliveries from a log -/

/-- `deliver i` hands over the message at position `i` of a log. -/
inductive Feed (O : Type x) where
  | deliver (i : Nat)
  | call (o : O)
  | crash

def feed (log : List M) : Feed O → Option (Action M O)
  | .deliver i => (log[i]?).map .deliver
  | .call o => some (.call o)
  | .crash => some .crash

theorem feed_deliver {log : List M} {f : Feed O} {m : M} (h : feed log f = some (.deliver m)) :
    m ∈ log := by
  cases f with
  | deliver i =>
    obtain ⟨m', hm', he⟩ := Option.map_eq_some_iff.mp h
    cases he
    exact List.mem_of_getElem? hm'
  | call o => cases h
  | crash => cases h

/-! ## Messages with more to them

What a handler of `M` does with messages that contain an `M` it does with the `M`s. -/

section
variable {M' : Type*} (f : M' → M)

def Action.map : Action M' O → Action M O
  | .deliver m => .deliver (f m)
  | .call o => .call o
  | .crash => .crash

def State.map (s : State M' D P) : State M D P :=
  ⟨s.store, s.current.map (fun c => (f c.1, c.2)), s.ended.map f⟩

variable {f} {h : Handler M D P O}

theorem step_map (s : State M' D P) (a : Action M' O) :
    step h (s.map f) (a.map f) = (step (h.comap f) s a).map (State.map f) := by
  cases a with
  | deliver m =>
    cases hc : s.current with
    | none => simp [step, Action.map, State.map, hc, Handler.comap]
    | some c => simp [step, Action.map, State.map, hc]
  | call o =>
    cases hc : s.current with
    | none => simp [step, Action.map, State.map, hc]
    | some c =>
      simp only [step, Action.map, State.map, hc, Option.map_some, Handler.comap, Option.map_map]
      congr 1
      funext r
      obtain ⟨store, next⟩ := r
      cases next <;> simp [State.proceed, State.map]
  | crash => rfl

/-- A run whose messages all come from an `M'` is the run of the handler of `M'`s. -/
theorem exists_lift {r : State M' D P} {as : List (Action M O)} {t : State M D P}
    {allowed : D → P → O → Prop} (cover : ∀ m, .deliver m ∈ as → ∃ m', f m' = m)
    (hrun : Runs.run (step h) (r.map f) as = some t)
    (hcalls : Runs.Steps (step h) (Permitted (fun _ => True) allowed) (r.map f) as) :
    ∃ as' t', Runs.run (step (h.comap f)) r as' = some t' ∧ t'.map f = t ∧
      Runs.Steps (step (h.comap f)) (Permitted (fun _ => True) allowed) r as' ∧
      ∀ m, .deliver m ∈ as' → .deliver (f m) ∈ as := by
  induction as generalizing r with
  | nil =>
    cases hrun
    exact ⟨[], r, rfl, rfl, trivial, by simp⟩
  | cons a as ih =>
    obtain ⟨s, hs, hrest⟩ := Runs.run_cons.mp hrun
    obtain ⟨a', rfl⟩ : ∃ a' : Action M' O, a'.map f = a := by
      cases a with
      | deliver m =>
        obtain ⟨m', rfl⟩ := cover m List.mem_cons_self
        exact ⟨.deliver m', rfl⟩
      | call o => exact ⟨.call o, rfl⟩
      | crash => exact ⟨.crash, rfl⟩
    obtain ⟨hpermitted, hrestCalls⟩ := hcalls s hs
    rw [step_map] at hs
    obtain ⟨r', hr', rfl⟩ := Option.map_eq_some_iff.mp hs
    obtain ⟨as', t', hrun', ht', hcalls', hdeliver⟩ :=
      ih (fun m hm => cover m (List.mem_cons_of_mem _ hm)) hrest hrestCalls
    refine ⟨a' :: as', t', Runs.run_cons.mpr ⟨r', hr', hrun'⟩, ht', ?_, ?_⟩
    · intro u hu
      cases hr'.symm.trans hu
      refine ⟨?_, hcalls'⟩
      cases a' with
      | deliver m => trivial
      | call o => exact fun m p hc => hpermitted (f m) p (by simp [State.map, hc])
      | crash => trivial
    · intro m hm
      rcases List.mem_cons.mp hm with rfl | hm
      · exact List.mem_cons_self
      · exact List.mem_cons_of_mem _ (hdeliver m hm)

end

/-- Rows with distinct keys, each of them what some message asks for, and one for
every message: the rows are what the messages ask for, up to order. -/
theorem rows_perm {R C K : Type*} (key : C → K) {rows : List R} {ms : List M} {content : R → C}
    {asked : M → C} (hrows : (rows.map (fun r => key (content r))).Nodup)
    (hms : (ms.map (fun m => key (asked m))).Nodup)
    (sound : ∀ r ∈ rows, ∃ m ∈ ms, content r = asked m)
    (complete : ∀ m ∈ ms, ∃ r ∈ rows, key (content r) = key (asked m)) :
    (rows.map content).Perm (ms.map asked) := by
  have hcontent : (rows.map content).Nodup := by
    refine List.Nodup.of_map key ?_
    rw [List.map_map]
    exact hrows
  have hasked : (ms.map asked).Nodup := by
    refine List.Nodup.of_map key ?_
    rw [List.map_map]
    exact hms
  refine (List.perm_ext_iff_of_nodup hcontent hasked).mpr (fun c => ?_)
  simp only [List.mem_map]
  constructor
  · rintro ⟨r, hr, rfl⟩
    obtain ⟨m, hm, heq⟩ := sound r hr
    exact ⟨m, hm, heq.symm⟩
  · rintro ⟨m, hm, rfl⟩
    obtain ⟨r, hr, hkey⟩ := complete m hm
    obtain ⟨m', hm', heq⟩ := sound r hr
    have hsame : m' = m := List.inj_on_of_nodup_map hms hm' hm (by rw [← heq, hkey])
    exact ⟨r, hr, by rw [heq, hsame]⟩

end Deliveries
