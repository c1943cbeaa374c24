import RiskCore.PolicyRecords

/-!
# Cancellation

`cancel_policy` looks at the status again under the lock, so a policy is
cancelled by one call and stays cancelled with that call's reason.
`update_policy` does not look again: an update that read the policy before its
cancellation still lands after it.
-/

namespace PolicyCancellation

open Values Outbox PolicyService PolicyRecords

variable {validate : Call → Except PolicyError Unit}

/-! ## Cancelled once -/

/-- A cancellation gives its policy the reason of the request. -/
def cancellation : Call → Option (UUID × String)
  | .cancel pk _ reason => some (pk, reason)
  | .create _ _ => none
  | .update _ _ _ => none

/-- Call `n` is a committed `cancel_policy` with this reason. -/
abbrev Cancels (s : State) (id : UUID) (n : Nat) (reason : String) : Prop :=
  Requests.DoneBy cancellation s id n reason

def isCancelled (e : OutboxEvent) : Bool := e.eventType = "policy.cancelled"

def cancelledOf (r : Record) : List OutboxEvent := r.events.filter isCancelled

structure CancelledOnce (s : State) (id : UUID) (r : Record) : Prop where
  single : ∀ n m reason reason', Cancels s id n reason → Cancels s id m reason' → n = m
  effect : ∀ n reason, Cancels s id n reason →
    r.policy.status = .cancelled ∧ r.policy.cancellationReason = reason
  events : (cancelledOf r).length = if r.policy.status = .cancelled then 1 else 0

/-- How a `cancel_policy` call that its serializer let through can fail. -/
def RefusedBy (validate : Call → Except PolicyError Unit) :
    (c : Call) → View c → PolicyError → Prop
  | .cancel pk filters reason, read, e => validate (.cancel pk filters reason) = .ok () →
      ∃ status, status ∉ cancelableStatuses ∧
        e = .invalidPolicyStatus (Policy.id read) status cancelableStatuses
  | .create _ _, _, _ => True
  | .update _ _ _, _, _ => True

/-- Every policy of the state has been cancelled at most once, and every
`cancel_policy` call that has failed was refused for the policy's status. -/
structure CancellationsSettled (validate : Call → Except PolicyError Unit) (s : State) :
    Prop where
  once : ∀ id r, recordOf s.db id = some r → CancelledOnce s id r
  refused : ∀ n c v e, s.calls n = .raised c v e → RefusedBy validate c v e

/-- From one state to the next: committed cancellations stay, and a call that
fails changes no row. -/
def StepKeeps (s : State) (_ : Action) (t : State) : Prop :=
  (∀ id n reason, Cancels s id n reason → Cancels t id n reason) ∧
    ∀ n c v e, t.calls n = .raised c v e → s.calls n = .raised c v e ∨ t.db = s.db

/-- The reason a policy row shows, if it is cancelled. -/
def shownReason (policy : Policy) : Option String :=
  if policy.status = .cancelled then some policy.cancellationReason else none

/-- The invariant: what the row shows is due to one call and told by one event. -/
def Sound (s : State) : Prop :=
  ∀ id r, recordOf s.db id = some r →
    Requests.DoneOnce cancellation s id (shownReason r.policy) ∧
      (cancelledOf r).length = if r.policy.status = .cancelled then 1 else 0

theorem shownReason_updated (r : Record) (env : Env) (read : Policy) (data : Data) :
    shownReason (r.updated env read data).policy = shownReason r.policy := by
  have hstatus := updated_status r env read data
  have hreason : (r.updated env read data).policy.cancellationReason =
      r.policy.cancellationReason :=
    updated_fixed r env read data (c := .cancellationReason) (by decide) (by decide)
  rw [shownReason, shownReason, hstatus, hreason]

theorem cancelledOf_updated (r : Record) (env : Env) (read : Policy) (data : Data) :
    cancelledOf (r.updated env read data) = cancelledOf r := by
  unfold Record.updated
  by_cases unchanged : changedFields data = []
  · rw [if_pos unchanged]
  · rw [if_neg unchanged]
    simp [cancelledOf, isCancelled, updatedEvent, emitPolicyEvent, OutboxEvent.create]

theorem cancelledOf_cancelled (r : Record) (env : Env) (reason : String) :
    (cancelledOf (r.cancelled env reason)).length = (cancelledOf r).length + 1 := by
  simp [cancelledOf, Record.cancelled, isCancelled, cancelledEvent, emitPolicyEvent,
    OutboxEvent.create]

/-- A policy without a record has been cancelled by nobody. -/
theorem cancellations_unknown {s : State}
    (h : Requests.Coherent (service validate) Integrity (Known validate) s) {id : UUID}
    (unknown : recordOf s.db id = none) : Requests.DoneOnce cancellation s id none := by
  rintro m reason ⟨c, read, hm, he⟩
  cases c with
  | create data coverages => cases he
  | update pk filters data => cases he
  | cancel pk filters reason' =>
    obtain ⟨hid, r, hr, _⟩ :=
      h.views m (.cancel pk filters reason') read (Or.inr (Or.inr (Or.inl hm)))
    cases he
    rw [hid, unknown] at hr
    cases hr

section
variable {s t : State} {n : Nat}

/-- A policy that the committed call did not cancel. -/
theorem sound_other {c : Call} {v : View c} (hs : Sound s) (at_n : s.calls n = .checked c v)
    (ht : t.calls = Function.update s.calls n (.committed c v)) {id : UUID} {r : Record}
    (hr : recordOf s.db id = some r) (other : ∀ reason, cancellation c ≠ some (id, reason)) :
    Requests.DoneOnce cancellation t id (shownReason r.policy) ∧
      (cancelledOf r).length = if r.policy.status = .cancelled then 1 else 0 := by
  obtain ⟨hdone, hevents⟩ := hs id r hr
  exact ⟨hdone.other at_n ht other, hevents⟩

theorem sound_cancel {env : Env} {pk : UUID} {filters : PolicyFilters} {reason : String}
    {read : Policy} (h : Requests.Coherent (service validate) Integrity (Known validate) s)
    (hs : Sound s) (at_n : s.calls n = .checked (.cancel pk filters reason) read)
    (hc : cancelPolicy s.db env read reason = .ok t.db)
    (ht : t.calls = Function.update s.calls n (.committed (.cancel pk filters reason) read)) :
    Sound t := by
  have hpk : read.id = pk :=
    (h.views n (.cancel pk filters reason) read (Or.inr (Or.inl at_n))).1
  obtain ⟨⟨locked, hlocked, cancelable⟩, records⟩ := cancelPolicy_records hc
  refine (Tables.forall_written_some_iff records (by rw [hlocked, Option.map_some]) ?_).mpr ?_
  · intro id r hid hr
    refine sound_other hs at_n ht hr ?_
    intro w he
    cases he
    exact hid hpk.symm
  · obtain ⟨hdone, hevents⟩ := hs read.id locked hlocked
    have alive : locked.policy.status ≠ .cancelled := by
      intro hdead
      rw [hdead] at cancelable
      revert cancelable
      decide
    rw [shownReason, if_neg alive] at hdone
    rw [if_neg alive] at hevents
    constructor
    · exact hdone.first at_n ht (by rw [hpk]; rfl)
    · rw [cancelledOf_cancelled, hevents]
      rfl

theorem sound_commit {env : Env} {c : Call} {v : View c}
    (h : Requests.Coherent (service validate) Integrity (Known validate) s) (hs : Sound s)
    (at_n : s.calls n = .checked c v) (hc : (service validate).commit s.db env c v = .ok t.db)
    (ht : t.calls = Function.update s.calls n (.committed c v)) : Sound t := by
  cases c with
  | create data coverages =>
    obtain ⟨number, unknown, records⟩ := createPolicy_records h.db hc
    refine (Tables.forall_written_some_iff records rfl ?_).mpr ?_
    · exact fun id r _ hr => sound_other hs at_n ht hr (by intro w he; cases he)
    · refine ⟨?_, rfl⟩
      exact (cancellations_unknown h unknown).other at_n ht (by intro w he; cases he)
  | update pk filters data =>
    refine (Tables.forall_written_iff (updatePolicy_records hc) ?_).mpr ?_
    · exact fun id r _ hr => sound_other hs at_n ht hr (by intro w he; cases he)
    · intro r hr
      obtain ⟨old, hold, rfl⟩ := Option.map_eq_some_iff.mp hr
      rw [shownReason_updated, cancelledOf_updated, updated_status]
      exact sound_other hs at_n ht hold (by intro w he; cases he)
  | cancel pk filters reason => exact sound_cancel h hs at_n hc ht

end

theorem sound_step {s t : State} {a : Action}
    (h : Requests.Coherent (service validate) Integrity (Known validate) s) (hs : Sound s)
    (hst : step validate s a = some t) : Sound t := by
  rcases Requests.step_db hst with ⟨same, quiet⟩ | ⟨n, env, c, v, rfl, at_n, hc, ht⟩
  · intro id r hr
    rw [same] at hr
    obtain ⟨hdone, hevents⟩ := hs id r hr
    exact ⟨hdone.congr (Requests.doneBy_quiet hst quiet id), hevents⟩
  · exact sound_commit h hs at_n hc ht

theorem Sound.once {s : State} (h : Sound s) {id : UUID} {r : Record}
    (hr : recordOf s.db id = some r) : CancelledOnce s id r := by
  obtain ⟨hdone, hevents⟩ := h id r hr
  by_cases dead : r.policy.status = .cancelled
  · rw [shownReason, if_pos dead] at hdone
    obtain ⟨n, hn, only⟩ := hdone
    refine ⟨?_, ?_, hevents⟩
    · intro m m' reason reason' hm hm'
      rw [only m reason hm, only m' reason' hm']
    · intro m reason hm
      have hmn := only m reason hm
      subst m
      obtain ⟨c, view, hc, he⟩ := hn
      obtain ⟨c', view', hc', he'⟩ := hm
      cases hc.symm.trans hc'
      cases he.symm.trans he'
      exact ⟨dead, rfl⟩
  · rw [shownReason, if_neg dead] at hdone
    exact ⟨fun n m reason _ hn => absurd hn (hdone n reason),
      fun n reason hn => absurd hn (hdone n reason), hevents⟩

theorem refusals_inductive : Runs.Inductive (step validate)
    (fun s => Requests.Coherent (service validate) Integrity (Known validate) s ∧
      ∀ n c v e, s.calls n = .raised c v e → RefusedBy validate c v e) := by
  refine Requests.raised_inductive (coherent validate) ?_ ?_
  · intro c v e h
    cases c with
    | create data coverages => trivial
    | update pk filters data => trivial
    | cancel pk filters reason =>
      intro accepted
      simp only [service, accepted, bind, Except.bind] at h
      obtain ⟨refused, he⟩ := checkCancelable_error h
      exact ⟨_, refused, he⟩
  · intro db env c v e _ hK h
    cases c with
    | create data coverages => trivial
    | update pk filters data => trivial
    | cancel pk filters reason =>
      intro _
      rcases cancelPolicy_error h with missing | refused
      · obtain ⟨_, r, hr, _⟩ := hK
        cases (recordOf_policy hr).1.symm.trans missing
      · exact refused

/-- In every state of every run, whatever calls interleave: a policy is
cancelled by at most one call, shows that call's reason from then on, has a
`policy.cancelled` event exactly if it is cancelled, and every other
`cancel_policy` call that ends is refused for its status without writing. -/
theorem cancelled_once_and_for_all (validate : Call → Except PolicyError Unit)
    (customers : List Customer) (as : List Action) :
    Runs.Always (step validate) (CancellationsSettled validate) (init customers) as ∧
      Runs.Steps (step validate) StepKeeps (init customers) as := by
  have ind : Runs.Inductive (step validate) (fun s =>
      (Requests.Coherent (service validate) Integrity (Known validate) s ∧
        ∀ n c v e, s.calls n = .raised c v e → RefusedBy validate c v e) ∧ Sound s) :=
    refusals_inductive.and (J := Sound) (fun s a t h hs hst => sound_step h.1 hs hst)
  have hinit : (Requests.Coherent (service validate) Integrity (Known validate)
      (init customers) ∧ ∀ n c v e, (init customers).calls n = .raised c v e →
        RefusedBy validate c v e) ∧ Sound (init customers) := by
    refine ⟨⟨coherent_start _, ?_⟩, ?_⟩
    · intro n c v e h
      cases h
    · intro id r hr
      cases hr
  constructor
  · refine (Runs.always_of_inductive ind hinit).mono ?_
    rintro s ⟨⟨_, refused⟩, hsound⟩
    exact ⟨fun id r hr => hsound.once hr, refused⟩
  · refine Runs.steps_mono ind (Q := fun _ _ _ => True) ?_ hinit
      (Runs.steps_of_forall (fun _ _ _ => trivial))
    intro s a t _ hst _
    exact ⟨fun id n reason hn => hn.step hst, fun n c v e hn => Requests.raising_keeps_db hst hn⟩

/-! ## Updates of a policy that is being cancelled -/

/-- A committing update that writes finds a status of `UPDATABLE_STATUSES`. -/
def WritesUpdatable (r : Record) (_ : Policy) (data : Data) : Prop :=
  changedFields data ≠ [] → r.policy.status ∈ updatableStatuses

/-- A committing update that writes finds the status it read. -/
def StatusAsRead (r : Record) (read : Policy) (data : Data) : Prop :=
  changedFields data ≠ [] → r.policy.status = read.status

instance (r : Record) (read : Policy) (data : Data) : Decidable (WritesUpdatable r read data) :=
  inferInstanceAs (Decidable (_ → _))

instance (r : Record) (read : Policy) (data : Data) : Decidable (StatusAsRead r read data) :=
  inferInstanceAs (Decidable (_ → _))

/-- The status can only have changed to CANCELLED since it was read. -/
theorem writesUpdatable_iff {r : Record} {read : Policy} {data : Data}
    (checked : read.status ∈ updatableStatuses)
    (since : r.policy.status = read.status ∨ r.policy.status = .cancelled) :
    WritesUpdatable r read data ↔ StatusAsRead r read data := by
  refine imp_congr_right (fun _ => ?_)
  rcases since with same | dead
  · exact iff_of_true (same ▸ checked) same
  · rw [dead]
    refine iff_of_false (by decide) ?_
    intro hread
    rw [← hread] at checked
    revert checked
    decide

/-- A record with a `policy.cancelled` event is cancelled. -/
theorem cancelled_of_event {db : Store} {as : List Action} {s : State}
    (hs : Runs.run (step validate) (start db) as = some s) {id : UUID} {r : Record}
    (hr : recordOf s.db id = some r) (he : ∃ e ∈ r.events, isCancelled e = true) :
    r.policy.status = .cancelled := by
  have hall : Runs.Always (step validate) (fun s => AllRecords
      (fun r => (∃ e ∈ r.events, isCancelled e = true) → r.policy.status = .cancelled) s.db)
      (start db) as := by
    refine always_allRecords ?_ ?_ ?_ ?_ as
    · rintro env n customer number data ⟨e, he, hce⟩
      rw [List.mem_singleton.mp he] at hce
      revert hce
      simp [isCancelled, createdEvent, emitPolicyEvent, OutboxEvent.create]
    · intro env r reason _ _
      rfl
    · rintro env r read data hR ⟨e, he, hce⟩
      rw [updated_status]
      refine hR ⟨e, ?_, hce⟩
      have hmem : e ∈ cancelledOf (r.updated env read data) := List.mem_filter.mpr ⟨he, hce⟩
      rw [cancelledOf_updated] at hmem
      exact (List.mem_filter.mp hmem).1
    · rintro id r hr ⟨e, he, _⟩
      rw [start_events hr] at he
      cases he
  exact hall.last hs id r hr he

/-- Where updates find the status they read, nothing more happens to a
cancelled policy. -/
theorem dead_unchanged {db : Store} {pre post : List Action} {s t : State}
    (hC : Runs.Steps (step validate)
      (Requests.OnCommit (service validate) (OnUpdate StatusAsRead)) (start db) (pre ++ post))
    (hs : Runs.run (step validate) (start db) pre = some s)
    (ht : Runs.run (step validate) s post = some t) {id : UUID} {r : Record}
    (hr : recordOf s.db id = some r) (dead : r.policy.status = .cancelled) :
    recordOf t.db id = some r := by
  refine Runs.keeps_of_steps (coherent validate) (P := fun s => recordOf s.db id = some r)
    (fun s a t => Requests.step_keeps_db (P := fun db => recordOf db id = some r) ?_)
    (coherent_start db) hC hs hr ht
  intro db env c v db' hI hK hpass hr hc hcond
  cases c with
  | create data coverages =>
    obtain ⟨number, unknown, records⟩ := createPolicy_records hI hc
    have hne : id ≠ env.uuid4 0 := by
      rintro rfl
      cases hr.symm.trans unknown
    rw [records id, if_neg hne, hr]
  | update pk filters data =>
    rw [updatePolicy_records hc id]
    by_cases hid : id = v.id
    · subst hid
      have unchanged : changedFields data = [] := by
        by_contra changed
        have checked := (check_update hpass).2
        rw [← hcond r hr changed, dead] at checked
        revert checked
        decide
      rw [if_pos rfl, hr, Option.map_some, Record.updated, if_pos unchanged]
    · rw [if_neg hid, hr]
  | cancel pk filters reason =>
    obtain ⟨⟨locked, hlocked, cancelable⟩, records⟩ := cancelPolicy_records hc
    have hne : id ≠ v.id := by
      rintro rfl
      cases hr.symm.trans hlocked
      rw [dead] at cancelable
      revert cancelable
      decide
    rw [records id, if_neg hne, hr]

/-- Every update of a run lands on an updatable policy iff every one finds the
status it read; and in such a run nothing is written to a policy, nor emitted
for it, after its `policy.cancelled` event. -/
theorem updates_live_iff_status_as_read (validate : Call → Except PolicyError Unit) (db : Store)
    (as : List Action) :
    (Runs.Steps (step validate) (Requests.OnCommit (service validate) (OnUpdate WritesUpdatable))
        (start db) as ↔
      Runs.Steps (step validate) (Requests.OnCommit (service validate) (OnUpdate StatusAsRead))
        (start db) as) ∧
    (Runs.Steps (step validate) (Requests.OnCommit (service validate) (OnUpdate StatusAsRead))
        (start db) as →
      ∀ pre post s t, as = pre ++ post → Runs.run (step validate) (start db) pre = some s →
        Runs.run (step validate) s post = some t → ∀ id r, recordOf s.db id = some r →
          (∃ e ∈ r.events, isCancelled e = true) → recordOf t.db id = some r) := by
  constructor
  · refine Requests.steps_onCommit_congr (coherent validate) ?_ (coherent_start db)
    intro db env c v db' hI hK hpass hc
    cases c with
    | create data coverages => exact Iff.rfl
    | cancel pk filters reason => exact Iff.rfl
    | update pk filters data =>
      obtain ⟨_, found, hfound, since⟩ := hK
      refine forall₂_congr (fun r hr => ?_)
      cases hfound.symm.trans hr
      exact writesUpdatable_iff (check_update hpass).2 since
  · rintro hC pre post s t rfl hs ht id r hr he
    exact dead_unchanged hC hs ht hr (cancelled_of_event hs hr he)

/-- The update reads the policy before, and commits after, its cancellation. -/
def updateAcrossCancellation : List Action :=
  exampleCreation ++ exampleRead 1 (exampleUpdate (premiumOnly examplePremium)) ++
    exampleRead 2 (exampleCancel "Client request") ++ exampleCommit 2 ++ exampleCommit 1

theorem updateAcrossCancellation_lands :
    ¬ Runs.Steps (step serializers)
      (Requests.OnCommit (service serializers) (OnUpdate WritesUpdatable))
      (init [exampleCustomer]) updateAcrossCancellation := by
  decide

end PolicyCancellation
