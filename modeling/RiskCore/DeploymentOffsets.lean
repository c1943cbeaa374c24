import RiskCore.Deployment

/-!
# What committed offsets say of the deployment

In the whole deployment the events below the committed offsets are stored exactly
as long as no commit passes over a message given up and unrecorded. When then the
relays have published every row and both consumers have committed to the ends of
their partitions, the audit log is the committed events, and the notifications are
those on their topics, whatever failed and was restarted on the way.
-/

namespace DeploymentOffsets

open Values Outbox Events OutboxRelay Deployment
open Pipeline (eventId Tells Drafts announced keeps_init tells_kept tells_of_stores
  eventId_of_drafts audit_simulates notification_simulates)

variable {j k : Nat} {c : Config}

theorem audit_sound (c : Config) : Partitions.Sound (AuditConsumer.handler c.runtime)
    (fun m => ∃ r : Relayed, r.message = m) AuditConsumer.Recorded
    (fun store m p => ∃ r : Relayed, r.message = m ∧ AuditConsumer.Ready store r p) :=
  Partitions.sound_of_comap (AuditConsumer.sound c.runtime)

theorem notification_sound (c : Config) :
    Partitions.Sound (NotificationConsumer.handler c.runtime c.defaultFromEmail)
      (fun m => ∃ r : Relayed, r.message = m) NotificationConsumer.Recorded
      (fun store m p => ∃ r : Relayed, r.message = m ∧ NotificationConsumer.Ready store r p) :=
  Partitions.sound_of_comap (NotificationConsumer.sound c.runtime c.defaultFromEmail)

abbrev auditLogs (s : State j k) : Partition → List Message := s.subscribed topics

abbrev notificationLogs (s : State j k) : Partition → List Message :=
  s.subscribed Redelivery.notificationTopics

/-- Every event below a committed offset is stored. -/
structure Stored (s : State j k) : Prop where
  audit : Partitions.Stored AuditConsumer.Recorded (auditLogs s) s.audit
  notification :
    Partitions.Stored NotificationConsumer.Recorded (notificationLogs s) s.notification

/-- No commit passes over a message that was given up and is unrecorded. -/
def NonePassed (c : Config) (s : State j k) (a : Action j k) (t : State j k) : Prop :=
  match a with
  | .audit b => Partitions.FailuresRecorded (AuditConsumer.handler c.runtime)
      AuditConsumer.Recorded (auditLogs s) s.audit b t.audit
  | .notification b => Partitions.FailuresRecorded
      (NotificationConsumer.handler c.runtime c.defaultFromEmail) NotificationConsumer.Recorded
      (notificationLogs s) s.notification b t.notification
  | _ => True

instance (s : State j k) : ∀ a t, Decidable (NonePassed c s a t)
  | .audit b, t => inferInstanceAs (Decidable (Partitions.FailuresRecorded
      (AuditConsumer.handler c.runtime) AuditConsumer.Recorded (auditLogs s) s.audit b t.audit))
  | .notification b, t => inferInstanceAs (Decidable (Partitions.FailuresRecorded
      (NotificationConsumer.handler c.runtime c.defaultFromEmail) NotificationConsumer.Recorded
      (notificationLogs s) s.notification b t.notification))
  | .policies _, _ | .claims _, _ => isTrue trivial

structure Coherent (c : Config) (s : State j k) : Prop where
  pipeline : ∃ p, Mirrors c s p ∧ Pipeline.Inv c.toConfig p
  audit : Partitions.Coherent
    (fun store m p => ∃ r : Relayed, r.message = m ∧ AuditConsumer.Ready store r p)
    (auditLogs s) s.audit
  notification : Partitions.Coherent
    (fun store m p => ∃ r : Relayed, r.message = m ∧ NotificationConsumer.Ready store r p)
    (notificationLogs s) s.notification

theorem coherent_init (customers : List PolicyService.Customer) :
    Coherent c (init customers : State j k) where
  pipeline := ⟨_, mirrors_init customers, Pipeline.inv_init customers⟩
  audit := Partitions.coherent_init _
  notification := Partitions.coherent_init _

/-- Only builders' events are read. -/
theorem Coherent.relayed {s : State j k} (h : Coherent c s) (topics : List String) :
    ∀ q, ∀ m ∈ s.subscribed topics q, ∃ r : Relayed, r.message = m := by
  intro q m hm
  obtain ⟨p, mirrors, inv⟩ := h.pipeline
  exact ⟨⟨m, PipelineDelivery.built_acked inv m (mirrors.readable.mp hm).1.1⟩, rfl⟩

theorem subscribed_grows {s t : State j k} {a : Action j k} (h : step c s a = some t)
    (topics : List String) : ∀ q, s.subscribed topics q <+: t.subscribed topics q := by
  have grown : ∀ q, s.logs q <+: t.logs q := by
    cases step_sound h with
    | policies moved => exact fun q => List.prefix_append _ _
    | claims moved => exact fun q => List.prefix_append _ _
    | audit moved => exact fun q => List.prefix_refl _
    | notification moved => exact fun q => List.prefix_refl _
  intro q
  simp only [State.subscribed]
  split
  · exact grown q
  · exact List.prefix_refl _

theorem coherent : Runs.Inductive (step (j := j) (k := k) c) (Coherent c) := by
  intro s a t hs hst
  obtain ⟨p, mirrors, inv⟩ := hs.pipeline
  obtain ⟨bs, p', hrun, mirrors'⟩ := simulates s a t p mirrors hst
  have pipeline : ∃ p, Mirrors c t p ∧ Pipeline.Inv c.toConfig p :=
    ⟨p', mirrors', Pipeline.inv_step.run inv hrun⟩
  have audit := hs.audit.grow (subscribed_grows hst topics)
  have notification := hs.notification.grow (subscribed_grows hst Redelivery.notificationTopics)
  cases step_sound hst with
  | policies moved => exact ⟨pipeline, audit, notification⟩
  | claims moved => exact ⟨pipeline, audit, notification⟩
  | audit moved =>
    exact ⟨pipeline, Partitions.coherent_step (audit_sound c) (hs.relayed topics) hs.audit moved,
      notification⟩
  | notification moved =>
    exact ⟨pipeline, audit, Partitions.coherent_step (notification_sound c)
      (hs.relayed Redelivery.notificationTopics) hs.notification moved⟩

theorem stored_step_iff {s t : State j k} {a : Action j k} (hs : Coherent c s) (hp : Stored s)
    (hst : step c s a = some t) : Stored t ↔ NonePassed c s a t := by
  have audit := hp.audit.grow hs.audit (subscribed_grows hst topics)
  have notification := hp.notification.grow hs.notification
    (subscribed_grows hst Redelivery.notificationTopics)
  cases step_sound hst with
  | policies moved => exact iff_of_true ⟨audit, notification⟩ trivial
  | claims moved => exact iff_of_true ⟨audit, notification⟩ trivial
  | audit moved =>
    refine Iff.trans ⟨Stored.audit, fun h => ⟨h, notification⟩⟩ ?_
    exact Partitions.stored_step_iff (audit_sound c) (hs.relayed topics) hs.audit hp.audit moved
  | notification moved =>
    refine Iff.trans ⟨Stored.notification, fun h => ⟨audit, h⟩⟩ ?_
    exact Partitions.stored_step_iff (notification_sound c)
      (hs.relayed Redelivery.notificationTopics) hs.notification hp.notification moved

/-- Along a run, what is below the committed offsets is stored iff no commit passes over
anything. -/
theorem stored_iff_none_passed (customers : List PolicyService.Customer)
    (as : List (Action j k)) : Runs.Always (step c) Stored (init customers) as ↔
      Runs.Steps (step c) (NonePassed c) (init customers) as := by
  refine Runs.always_iff_steps coherent (fun s a t hs hp hst => stored_step_iff hs hp hst)
    (coherent_init customers) ⟨?_, ?_⟩
  · exact fun q i hi => absurd hi (Nat.not_lt_zero i)
  · exact fun q i hi => absurd hi (Nat.not_lt_zero i)

/-! ## Caught up -/

/-- Every row is published and what is published is acknowledged; both consumers have
committed to the ends of their partitions; no two events share an identifier. -/
structure CaughtUp (s : State j k) : Prop where
  published : ∀ row ∈ s.policies.relay.rows ++ s.claims.relay.rows, row.status = .published
  policies : RelayDelivery.AckedWhenPublished s.policies.relay
  claims : RelayDelivery.AckedWhenPublished s.claims.relay
  audit : ∀ q, (auditLogs s q).length ≤ s.audit.committed q
  notification : ∀ q, (notificationLogs s q).length ≤ s.notification.committed q
  distinct : (s.stored.map eventId).Nodup

theorem CaughtUp.acked {s : State j k} (h : CaughtUp s) {p : Pipeline.State j k}
    (mirrors : Mirrors c s p) (inv : Pipeline.Inv c.toConfig p) {e : OutboxEvent}
    (he : e ∈ p.stored) : message e ∈ p.acked := by
  have published := List.forall_mem_append.mp h.published
  rcases List.mem_append.mp he with he | he
  · exact List.mem_append_left _
      (inv.policies.all_acked (mirrors.policies ▸ h.policies) (mirrors.policies ▸ published.1) he)
  · exact List.mem_append_right _
      (inv.claims.all_acked (mirrors.claims ▸ h.claims) (mirrors.claims ▸ published.2) he)

/-- Where a consumer has committed to the ends, all it subscribes to is recorded. -/
theorem recorded_at_end {D P : Type} {recorded : D → Message → Prop} {s : State j k}
    {p : Pipeline.State j k} (mirrors : Mirrors c s p) {topics : List String}
    {consumer : Partitions.State Partition Message D P}
    (stored : Partitions.Stored recorded (s.subscribed topics) consumer)
    (ends : ∀ q, (s.subscribed topics q).length ≤ consumer.committed q) {m : Message}
    (hm : m ∈ p.acked) (on : m.topic ∈ topics) : recorded consumer.store m := by
  have readable : m ∈ s.subscribed topics (c.place m) := mirrors.readable.mpr ⟨⟨hm, on⟩, rfl⟩
  obtain ⟨i, hi⟩ := List.mem_iff_getElem?.mp readable
  exact stored _ i (Nat.lt_of_lt_of_le (List.getElem?_eq_some_iff.mp hi).1 (ends _)) m hi

theorem topic_of_built {topic : String} {payload : Json} (h : Built topic payload) :
    topic ∈ topics := by
  cases h <;> decide

/-- Caught up, the audit rows tell the committed events, each once, and the
notifications are drafted from those on their topics, each once. -/
theorem caught_up_tells_all {customers : List PolicyService.Customer} {as : List (Action j k)}
    {s : State j k} (hrun : Runs.run (step c) (init customers) as = some s)
    (passed : Runs.Steps (step c) (NonePassed c) (init customers) as) (caught : CaughtUp s) :
    (∃ es, es.Perm s.stored ∧ List.Forall₂ Tells s.audit.store.rows es) ∧
      ∃ es, es.Perm (s.stored.filter announced) ∧
        List.Forall₂ (fun n e => Drafts c.toConfig n e.payload) s.notification.store.rows es := by
  have stored : Stored s := ((stored_iff_none_passed customers as).mpr passed).last hrun
  constructor
  · obtain ⟨_, l, -, p, mirrors, hl⟩ := (simulates.trans audit_simulates).run
      ⟨_, mirrors_init customers, keeps_init customers rfl⟩ hrun
    have hstored : l.emitted.Perm p.stored := by simpa using hl.emitted
    refine ⟨l.recorded, ?_, ?_⟩
    · rw [← mirrors.stored]
      refine (PipelineDelivery.kept_perm AuditConsumer.AuditEvent.eventId hl
        (fun row e he hasks => ?_) (mirrors.stored ▸ caught.distinct)
        (fun e he => ?_)).trans hstored
      · exact (tells_of_stores (hl.inv.built (hstored.mem_iff.mp he)) hasks).eventId
      · have hacked := caught.acked mirrors hl.inv (hstored.mem_iff.mp he)
        obtain ⟨row, hrow, hid⟩ := recorded_at_end mirrors stored.audit caught.audit hacked
          (topic_of_built (PipelineDelivery.built_acked hl.inv _ hacked))
        refine ⟨row, ?_, hid⟩
        rw [Pipeline.auditRows, mirrors.audit.1]
        exact hrow
    · rw [← mirrors.audit.1]
      exact tells_kept hl
  · obtain ⟨_, l, -, p, mirrors, hl⟩ := (simulates.trans notification_simulates).run
      ⟨_, mirrors_init customers, keeps_init customers rfl⟩ hrun
    have hemitted : ∀ e ∈ l.emitted, e ∈ p.stored ∧ announced e = true := fun e he =>
      List.mem_filter.mp (hl.emitted.mem_iff.mp he)
    refine ⟨l.recorded, ?_, ?_⟩
    · rw [← mirrors.stored]
      refine (PipelineDelivery.kept_perm NotificationConsumer.Notification.eventId hl
        (fun n e he hasks => ?_) (mirrors.stored ▸ caught.distinct) (fun e he => ?_)).trans
          hl.emitted
      · exact eventId_of_drafts (hl.inv.built (hemitted e he).1) hasks
      · obtain ⟨hmem, htopic⟩ := hemitted e he
        obtain ⟨row, hrow, hid⟩ := recorded_at_end mirrors stored.notification
          caught.notification (caught.acked mirrors hl.inv hmem) (of_decide_eq_true htopic)
        refine ⟨row, ?_, hid⟩
        rw [Pipeline.notificationRows, mirrors.notification.1]
        exact hrow
    · rw [← mirrors.notification.1]
      exact hl.kept

/-! ## An outage of the channel layer

The audit consumer stores a row, fails to broadcast it and gives the message up; the
restart hands it over again, as a duplicate now, and its offset is committed. The other
partitions are read meanwhile. -/

def exampleConfig : Config where
  toConfig := PipelineDelivery.exampleConfig
  partition _ := 0

def exampleRun : List (Action 1 1) :=
  PipelineDelivery.examplePolicies.map .policies ++ PipelineDelivery.exampleClaims.map .claims ++
    [.audit (.poll ("claim.filed", 0)),
      .audit (.call (.created ⟨1000⟩ (exampleInstant 11 2) (exampleInstant 11 2))),
      .audit (.call .done), .audit (.call .done), .audit (.poll ("policy.created", 0)),
      .audit (.call (.created ⟨1001⟩ (exampleInstant 11 2) (exampleInstant 11 2))),
      .audit (.call .raised), .audit (.poll ("policy.created", 0)),
      .audit (.poll ("claim.status_changed", 0)),
      .audit (.call (.created ⟨1002⟩ (exampleInstant 11 2) (exampleInstant 11 2))),
      .audit (.call .done), .audit (.call .done), .audit .restart,
      .audit (.poll ("policy.created", 0)),
      .audit (.call (.created ⟨1003⟩ (exampleInstant 11 3) (exampleInstant 11 3))),
      .audit (.call .done)] ++
    ["policy.created", "claim.filed", "claim.status_changed"].flatMap (fun topic =>
      [.notification (.poll (topic, 0)),
        .notification (.call (.created ⟨BitVec.ofNat 128 (2000 + topic.length)⟩
          (exampleInstant 11 3))),
        .notification (.call .done), .notification (.call .done), .notification (.call .done)])

def examplePartitions : List Partition :=
  [("policy.created", 0), ("claim.filed", 0), ("claim.status_changed", 0)]

theorem exampleRun_ends :
    (Runs.run (step exampleConfig) (init [PolicyRecords.exampleCustomer]) exampleRun).map
      (fun s => (s.stored, s.policies.relay.rows, s.claims.relay.rows, s.policies.relay.acked,
        s.claims.relay.acked)) =
      some ([PipelineDelivery.exampleCreated, PipelineDelivery.exampleFiled,
          PipelineDelivery.exampleReviewed],
        [published PipelineDelivery.exampleCreated (exampleInstant 11 1)],
        [published PipelineDelivery.exampleFiled (exampleInstant 11 1),
          published PipelineDelivery.exampleReviewed (exampleInstant 11 2)],
        [message PipelineDelivery.exampleCreated],
        [message PipelineDelivery.exampleFiled, message PipelineDelivery.exampleReviewed]) := by
  rfl

/-- One message in each of the partitions, and both consumers past it. -/
theorem exampleRun_offsets :
    (Runs.run (step exampleConfig) (init [PolicyRecords.exampleCustomer]) exampleRun).map
      (fun s => examplePartitions.map (fun q =>
        ((s.logs q).length, s.audit.committed q, s.notification.committed q))) =
      some (examplePartitions.map (fun _ => (1, 1, 1))) := by
  decide +kernel

theorem exampleRun_caught_up {s : State 1 1}
    (hs : Runs.run (step exampleConfig) (init [PolicyRecords.exampleCustomer]) exampleRun =
      some s) : CaughtUp s := by
  have hends := exampleRun_ends
  rw [hs, Option.map_some, Option.some.injEq] at hends
  simp only [Prod.mk.injEq] at hends
  obtain ⟨hstored, hpolicies, hclaims, hcreated, hfiled⟩ := hends
  have hoffsets := exampleRun_offsets
  rw [hs, Option.map_some, Option.some.injEq] at hoffsets
  have offsets : ∀ q ∈ examplePartitions, (s.logs q).length = 1 ∧ s.audit.committed q = 1 ∧
      s.notification.committed q = 1 := by
    simpa only [List.map_inj_left, Prod.mk.injEq] using hoffsets
  obtain ⟨p, mirrors, -⟩ := (coherent.run (coherent_init _) hs).pipeline
  have hall : p.acked = [message PipelineDelivery.exampleCreated,
      message PipelineDelivery.exampleFiled, message PipelineDelivery.exampleReviewed] := by
    rw [Pipeline.State.acked, mirrors.policies, mirrors.claims, hcreated, hfiled]
    rfl
  have places : ∀ m ∈ p.acked, exampleConfig.place m ∈ examplePartitions := by
    rw [hall]
    simp only [List.forall_mem_cons, List.not_mem_nil, false_implies, implies_true, and_true]
    decide
  -- a partition with a message is one of the three
  have ends : ∀ topics (committed : Partition → Nat),
      (∀ q ∈ examplePartitions, committed q = 1) →
        ∀ q, (s.subscribed topics q).length ≤ committed q := by
    intro topics committed hcommitted q
    cases hq : s.subscribed topics q with
    | nil => exact Nat.zero_le _
    | cons m rest =>
      obtain ⟨⟨hm, -⟩, hplace⟩ := mirrors.readable.mp (hq ▸ List.mem_cons_self)
      have there : q ∈ examplePartitions := hplace ▸ places m hm
      have shorter : (s.subscribed topics q).length ≤ (s.logs q).length := by
        simp only [State.subscribed]
        split <;> simp
      rw [(offsets q there).1] at shorter
      rw [← hq, hcommitted q there]
      exact shorter
  constructor
  case published => simp [hpolicies, hclaims, published]
  case policies =>
    refine RelayDelivery.ackedWhenPublished_of_map ?_
    rw [hpolicies, hcreated]
    rfl
  case claims =>
    refine RelayDelivery.ackedWhenPublished_of_map ?_
    rw [hclaims, hfiled]
    rfl
  case audit => exact ends topics _ (fun q hq => (offsets q hq).2.1)
  case notification =>
    exact ends Redelivery.notificationTopics _ (fun q hq => (offsets q hq).2.2)
  case distinct =>
    rw [hstored]
    decide +kernel

theorem exampleRun_passes_none : Runs.Steps (step exampleConfig) (NonePassed exampleConfig)
    (init [PolicyRecords.exampleCustomer]) exampleRun := by
  decide +kernel

theorem exampleRun_tells_all : ∃ s, Runs.run (step exampleConfig)
      (init [PolicyRecords.exampleCustomer]) exampleRun = some s ∧
    (∃ es, es.Perm s.stored ∧ List.Forall₂ Tells s.audit.store.rows es) ∧
    ∃ es, es.Perm (s.stored.filter announced) ∧ List.Forall₂
      (fun n e => Drafts exampleConfig.toConfig n e.payload) s.notification.store.rows es := by
  obtain ⟨s, hs, -⟩ := Option.map_eq_some_iff.mp exampleRun_ends
  exact ⟨s, hs, caught_up_tells_all hs exampleRun_passes_none (exampleRun_caught_up hs)⟩

end DeploymentOffsets
