import RiskCore.Partitions
import RiskCore.PipelineDelivery

/-!
# The pipeline as deployed

The broker keeps every topic in partitions, a message going to the one its key is
hashed to, and the two consumers read the partitions of their topics with committed
offsets. The deployment implements the pipeline, where messages are handed over in
any order. What that leaves open is when a message has been handled at all: when the
offset of its partition is committed past it, if no commit passes over a message
that was given up and is unrecorded.
-/

namespace Deployment

open Values Outbox Events OutboxRelay Pipeline

/-- `partition` is the partitioner of the producers. -/
structure Config extends Pipeline.Config where
  partition : Message → Nat

abbrev Partition := String × Nat

def Config.place (c : Config) (m : Message) : Partition := (m.topic, c.partition m)

/-- `TOPICS`. -/
def topics : List String :=
  ["policy.created", "policy.updated", "policy.cancelled", "claim.filed", "claim.status_changed",
    "claim.resolved"]

abbrev Audit := Partitions.State Partition Message AuditConsumer.Store AuditConsumer.Point

abbrev Notifications :=
  Partitions.State Partition Message NotificationConsumer.Store NotificationConsumer.Point

structure State (j k : Nat) where
  policies : Policies j
  claims : Claims k
  logs : Partition → List Message
  audit : Audit
  notification : Notifications

inductive Action (j k : Nat) where
  | policies (a : Outlets.Action PolicyService.Call PolicyService.Env j)
  | claims (a : Outlets.Action ClaimService.Call ClaimService.Env k)
  | audit (a : Partitions.Action Partition AuditConsumer.Outcome)
  | notification (a : Partitions.Action Partition NotificationConsumer.Outcome)

variable {j k : Nat}

def State.stored (s : State j k) : List OutboxEvent :=
  s.policies.requests.db.outbox ++ s.claims.requests.db.outbox

/-- What a consumer of these topics can read. -/
def State.subscribed (topics : List String) (s : State j k) : Partition → List Message :=
  fun p => if p.1 ∈ topics then s.logs p else []

def init (customers : List PolicyService.Customer) : State j k where
  policies := ⟨PolicyService.init customers, OutboxRelay.init⟩
  claims := ⟨ClaimService.init, OutboxRelay.init⟩
  logs _ := []
  audit := Partitions.init ⟨[], []⟩
  notification := Partitions.init ⟨[], []⟩

section
variable (c : Config)

/-- What the broker has acknowledged since `acked` goes to the ends of its partitions. -/
def appended (logs : Partition → List Message) (acked acked' : List Message) :
    Partition → List Message :=
  fun p => logs p ++ (acked'.drop acked.length).filter (fun m => c.place m = p)

def step (s : State j k) : Action j k → Option (State j k)
  | .policies a =>
    (Outlets.step (PolicyService.service c.validate) PolicyService.Store.outbox s.policies a).map
      (fun t => { s with
        policies := t
        logs := appended c s.logs s.policies.relay.acked t.relay.acked })
  | .claims a =>
    (Outlets.step ClaimService.service ClaimService.Store.outbox s.claims a).map
      (fun t => { s with
        claims := t
        logs := appended c s.logs s.claims.relay.acked t.relay.acked })
  | .audit a =>
    (Partitions.step (AuditConsumer.handler c.runtime) (s.subscribed topics) s.audit a).map
      (fun t => { s with audit := t })
  | .notification a =>
    (Partitions.step (NotificationConsumer.handler c.runtime c.defaultFromEmail)
      (s.subscribed Redelivery.notificationTopics) s.notification a).map
        (fun t => { s with notification := t })

/-- What one step can do, case by case. -/
inductive Step (s : State j k) : Action j k → State j k → Prop where
  | policies {a t} (moved : Outlets.step (PolicyService.service c.validate)
      PolicyService.Store.outbox s.policies a = some t) :
      Step s (.policies a) { s with
        policies := t
        logs := appended c s.logs s.policies.relay.acked t.relay.acked }
  | claims {a t} (moved : Outlets.step ClaimService.service ClaimService.Store.outbox s.claims a =
      some t) : Step s (.claims a) { s with
        claims := t
        logs := appended c s.logs s.claims.relay.acked t.relay.acked }
  | audit {a t} (moved : Partitions.step (AuditConsumer.handler c.runtime) (s.subscribed topics)
      s.audit a = some t) : Step s (.audit a) { s with audit := t }
  | notification {a t} (moved : Partitions.step
      (NotificationConsumer.handler c.runtime c.defaultFromEmail)
      (s.subscribed Redelivery.notificationTopics) s.notification a = some t) :
      Step s (.notification a) { s with notification := t }

end

variable {c : Config}

theorem step_sound {s t : State j k} {a : Action j k} (h : step c s a = some t) : Step c s a t := by
  cases a with
  | policies a =>
    obtain ⟨r, hr, rfl⟩ := Option.map_eq_some_iff.mp h
    exact .policies hr
  | claims a =>
    obtain ⟨r, hr, rfl⟩ := Option.map_eq_some_iff.mp h
    exact .claims hr
  | audit a =>
    obtain ⟨r, hr, rfl⟩ := Option.map_eq_some_iff.mp h
    exact .audit hr
  | notification a =>
    obtain ⟨r, hr, rfl⟩ := Option.map_eq_some_iff.mp h
    exact .notification hr

/-! ## The pipeline it implements -/

/-- The state of the pipeline: what is in the partitions is what was acknowledged. -/
structure Mirrors (c : Config) (s : State j k) (p : Pipeline.State j k) : Prop where
  policies : p.policies = s.policies
  claims : p.claims = s.claims
  audit : Partitions.Shows s.audit p.audit
  notification : Partitions.Shows s.notification p.notification
  logged : ∀ q m, m ∈ s.logs q ↔ m ∈ p.acked ∧ c.place m = q

theorem Mirrors.stored {s : State j k} {p : Pipeline.State j k} (h : Mirrors c s p) :
    p.stored = s.stored := by
  rw [Pipeline.State.stored, State.stored, h.policies, h.claims]

theorem Mirrors.readable {s : State j k} {p : Pipeline.State j k} (h : Mirrors c s p)
    {topics : List String} {q : Partition} {m : Message} :
    m ∈ s.subscribed topics q ↔ (m ∈ p.acked ∧ m.topic ∈ topics) ∧ c.place m = q := by
  rw [State.subscribed]
  split
  · rename_i on
    rw [h.logged]
    constructor
    · rintro ⟨hacked, rfl⟩
      exact ⟨⟨hacked, on⟩, rfl⟩
    · exact fun ⟨⟨hacked, _⟩, hplace⟩ => ⟨hacked, hplace⟩
  · rename_i off
    constructor
    · intro hm
      cases hm
    · rintro ⟨⟨_, htopic⟩, rfl⟩
      exact absurd htopic off

theorem mem_appended {logs : Partition → List Message} {acked acked' : List Message}
    {q : Partition} {m : Message} :
    m ∈ appended c logs acked acked' q ↔
      m ∈ logs q ∨ m ∈ acked'.drop acked.length ∧ c.place m = q := by
  simp [appended]

theorem mem_of_prefix {acked acked' : List Message} (grown : acked <+: acked') {m : Message} :
    m ∈ acked' ↔ m ∈ acked ∨ m ∈ acked'.drop acked.length := by
  obtain ⟨new, rfl⟩ := grown
  simp

theorem mirrors_init (customers : List PolicyService.Customer) :
    Mirrors c (init customers : State j k) (Pipeline.init customers) where
  policies := rfl
  claims := rfl
  audit := Partitions.shows_init _
  notification := Partitions.shows_init _
  logged := by
    intro q m
    simp [init, Pipeline.init, Pipeline.State.acked, OutboxRelay.init]

theorem simulates : Components.Simulates (step (j := j) (k := k) c)
    (Pipeline.step c.toConfig) (Mirrors c) := by
  intro s a t p h hst
  cases step_sound hst with
  | @policies a r moved =>
    refine ⟨[.policies a], { p with policies := r }, ?_, rfl, h.claims, h.audit, h.notification,
      fun q m => ?_⟩
    · refine Runs.run_cons.mpr ⟨_, ?_, rfl⟩
      simp only [Pipeline.step, h.policies, moved, Option.map_some]
    · have grown := Outlets.step_acked moved
      rw [mem_appended, h.logged]
      simp only [Pipeline.State.acked, List.mem_append, h.policies, mem_of_prefix grown]
      tauto
  | @claims a r moved =>
    refine ⟨[.claims a], { p with claims := r }, ?_, h.policies, rfl, h.audit, h.notification,
      fun q m => ?_⟩
    · refine Runs.run_cons.mpr ⟨_, ?_, rfl⟩
      simp only [Pipeline.step, h.claims, moved, Option.map_some]
    · have grown := Outlets.step_acked moved
      rw [mem_appended, h.logged]
      simp only [Pipeline.State.acked, List.mem_append, h.claims, mem_of_prefix grown]
      tauto
  | @audit a r moved =>
    have pooled : ∀ q, ∀ m ∈ s.subscribed topics q, m ∈ p.acked :=
      fun q m hm => (h.readable.mp hm).1.1
    rcases Partitions.step_shows pooled h.audit moved with shown | ⟨f, d, hd, shown⟩
    · exact ⟨[], p, rfl, h.policies, h.claims, shown, h.notification, h.logged⟩
    · refine ⟨[.audit f], { p with audit := d }, ?_, h.policies, h.claims, shown,
        h.notification, h.logged⟩
      refine Runs.run_cons.mpr ⟨_, ?_, rfl⟩
      simp only [Pipeline.step, hd, Option.map_some]
  | @notification a r moved =>
    have pooled : ∀ q, ∀ m ∈ s.subscribed Redelivery.notificationTopics q, m ∈ p.subscribed :=
      fun q m hm => List.mem_filter.mpr
        ⟨(h.readable.mp hm).1.1, decide_eq_true (h.readable.mp hm).1.2⟩
    rcases Partitions.step_shows pooled h.notification moved with shown | ⟨f, d, hd, shown⟩
    · exact ⟨[], p, rfl, h.policies, h.claims, h.audit, shown, h.logged⟩
    · refine ⟨[.notification f], { p with notification := d }, ?_, h.policies, h.claims, h.audit,
        shown, h.logged⟩
      refine Runs.run_cons.mpr ⟨_, ?_, rfl⟩
      simp only [Pipeline.step, hd, Option.map_some]

/-- The deployment, offsets, restarts and all, implements the pipeline, and with it a
ledger of the committed events whose recorded entries the audit rows tell one by one. -/
theorem deployment_implements_pipeline (c : Config) (customers : List PolicyService.Customer) :
    Components.Implements (step (j := j) (k := k) c) (init customers)
        (Pipeline.step c.toConfig) (Pipeline.init customers)
        (fun s p => p.policies = s.policies ∧ p.claims = s.claims ∧
          p.audit.store = s.audit.store ∧ p.notification.store = s.notification.store) ∧
      Components.Implements (step (j := j) (k := k) c) (init customers)
        (Ledgers.step eventId) ⟨[], []⟩ (fun s l => l.emitted.Perm s.stored ∧
          List.Forall₂ Tells s.audit.store.rows l.recorded) := by
  constructor
  · exact ⟨Mirrors c, mirrors_init customers, simulates,
      fun s p h => ⟨h.policies, h.claims, h.audit.1, h.notification.1⟩⟩
  · refine ⟨_, ⟨_, mirrors_init customers, keeps_init customers rfl⟩,
      simulates.trans audit_simulates, ?_⟩
    rintro s l ⟨p, h, hl⟩
    have hstored : l.emitted.Perm p.stored := by simpa using hl.emitted
    refine ⟨h.stored ▸ hstored, ?_⟩
    rw [← h.audit.1]
    exact tells_kept hl

end Deployment
