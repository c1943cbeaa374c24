import RiskCore.ClaimMetrics
import RiskCore.PolicyMetrics
import RiskCore.PipelineDelivery

/-!
# The figures of the dashboard from the audit log

The audit log is filled by messages that arrive in any order. The claims by status,
the open claims and the active policies are a matter of counting events, so once the
pipeline has settled the audit rows alone give the same numbers. Figures of a day,
averages and premiums are not covered.
-/

namespace AuditFigures

open Values Outbox Trails Pipeline PipelineDelivery

variable {j k : Nat} {c : Config}

def auditTrail (rows : List AuditConsumer.AuditEvent) : Trail :=
  rows.map (fun row => (row.eventType, row.payload))

/-- Every transition commits against the status it read. -/
def AsRead (s : State j k) : Action j k → State j k → Prop
  | .claims (.request a), t => Requests.OnCommit ClaimService.service
      (ClaimRecords.OnTransition ClaimLifecycle.StatusAsRead) s.claims.requests a t.claims.requests
  | _, _ => True

instance (s : State j k) : ∀ a t, Decidable (AsRead s a t)
  | .claims (.request a), t => inferInstanceAs (Decidable (Requests.OnCommit ClaimService.service
      (ClaimRecords.OnTransition ClaimLifecycle.StatusAsRead) s.claims.requests a
      t.claims.requests))
  | .claims (.relay _), _ | .policies _, _ | .audit _, _ | .notification _, _ => isTrue trivial

/-! ## The services on their own -/

section
variable {DB Call Err Env : Type} {View : Call → Type}

/-- What a step of a service with its relays is to the service. -/
def requested : Outlets.Action Call Env k → List (Requests.Action Call Env)
  | .request a => [a]
  | .relay _ => []

theorem requests_run {S : Requests.Service DB Call View Err Env} {outbox : DB → List OutboxEvent}
    {s t : Outlets.State DB Call View Err k} {a : Outlets.Action Call Env k}
    (h : Outlets.step S outbox s a = some t) :
    Runs.run (Requests.step S) s.requests (requested a) = some t.requests := by
  cases Outlets.step_sound h with
  | request moved _ => exact Runs.run_cons.mpr ⟨_, moved, rfl⟩
  | relay _ _ => rfl

end

def policyRequests (_ : State j k) : Action j k → List PolicyService.Action
  | .policies a => requested a
  | _ => []

def claimRequests (_ : State j k) : Action j k → List ClaimService.Action
  | .claims a => requested a
  | _ => []

theorem policies_part : Components.Part (step (j := j) (k := k) c) (PolicyService.step c.validate)
    (fun s => s.policies.requests) policyRequests := by
  intro s a t hst
  cases step_sound hst with
  | policies moved => exact requests_run moved
  | _ => rfl

theorem claims_part : Components.Part (step (j := j) (k := k) c) ClaimService.step
    (fun s => s.claims.requests) claimRequests := by
  intro s a t hst
  cases step_sound hst with
  | claims moved => exact requests_run moved
  | _ => rfl

/-- The transitions of the pipeline are those of claims-service. -/
theorem claims_asRead {customers : List PolicyService.Customer} {as : List (Action j k)}
    {s : State j k} (hrun : Runs.run (step c) (init customers) as = some s)
    (asRead : Runs.Steps (step c) AsRead (init customers) as) :
    Runs.Steps ClaimService.step (Requests.OnCommit ClaimService.service
        (ClaimRecords.OnTransition ClaimLifecycle.StatusAsRead)) ClaimService.init
      (Runs.journal (step c) claimRequests (init customers) as) := by
  refine claims_part.steps hrun (Runs.steps_mono (I := fun _ => True)
    (fun _ _ _ _ _ => trivial) (fun s a t _ hst hread => ?_) trivial asRead)
  cases a with
  | claims a =>
    cases a with
    | request a =>
      cases step_sound hst with
      | claims moved =>
        cases Outlets.step_sound moved with
        | request taken _ =>
          intro u hu
          cases taken.symm.trans hu
          exact ⟨hread, trivial⟩
    | relay a => trivial
  | _ => trivial

/-! ## Whose events are whose -/

def policyTypes : List String := ["policy.created", "policy.updated", "policy.cancelled"]

def claimTypes : List String := ["claim.filed", "claim.status_changed", "claim.resolved"]

theorem policy_types {validate : PolicyService.Call → Except PolicyService.PolicyError Unit} :
    Runs.Inductive (PolicyService.step validate)
      (fun s => ∀ e ∈ s.db.outbox, e.eventType ∈ policyTypes) := by
  refine Requests.db_inductive
    (P := fun db : PolicyService.Store => ∀ e ∈ db.outbox, e.eventType ∈ policyTypes) ?_
  intro db env call v db' hc h
  cases call with
  | create data coverages =>
    obtain ⟨number, _, rfl⟩ := PolicyService.createPolicy_ok hc
    exact Tables.forall_insert h (by decide : "policy.created" ∈ policyTypes)
  | update pk filters data =>
    rcases PolicyService.updatePolicy_ok hc with ⟨_, rfl⟩ | ⟨_, row, _, rfl⟩
    · exact h
    · exact Tables.forall_insert h (by decide : "policy.updated" ∈ policyTypes)
  | cancel pk filters reason =>
    obtain ⟨locked, _, _, _, rfl⟩ := PolicyService.cancelPolicy_ok hc
    exact Tables.forall_insert h (by decide : "policy.cancelled" ∈ policyTypes)

theorem claim_types : Runs.Inductive ClaimService.step
    (fun s => ∀ e ∈ s.db.outbox, e.eventType ∈ claimTypes) := by
  refine Requests.db_inductive
    (P := fun db : ClaimService.Store => ∀ e ∈ db.outbox, e.eventType ∈ claimTypes) ?_
  intro db env call v db' hc h
  cases call with
  | file data =>
    obtain ⟨number, _, rfl⟩ := ClaimService.fileClaim_ok hc
    exact Tables.forall_insert h (by decide : "claim.filed" ∈ claimTypes)
  | transition req =>
    obtain ⟨locked, _, _, rfl⟩ := ClaimService.transitionStatus_ok hc
    refine List.forall_mem_append.mpr ⟨h, List.forall_mem_cons.mpr
      ⟨(by decide : "claim.status_changed" ∈ claimTypes), ?_⟩⟩
    intro e he
    unfold ClaimService.resolvedEvents at he
    split at he
    · rw [List.mem_singleton.mp he]
      exact (by decide : "claim.resolved" ∈ claimTypes)
    · cases he

/-- What is asked of events of other types only is true of none. -/
theorem countP_other {outbox : List OutboxEvent} {types : List String}
    (own : ∀ e ∈ outbox, e.eventType ∈ types) {q : String × Json → Bool}
    (others : ∀ type ∈ types, ∀ payload, q (type, payload) = false) :
    (trailOf outbox).countP q = 0 := by
  refine List.countP_eq_zero.mpr (fun x hx => ?_)
  obtain ⟨e, he, rfl⟩ := List.mem_map.mp hx
  rw [others e.eventType (own e he)]
  exact Bool.false_ne_true

theorem forall_policyTypes {q : String × Json → Bool}
    (created : ∀ payload, q ("policy.created", payload) = false)
    (updated : ∀ payload, q ("policy.updated", payload) = false)
    (cancelled : ∀ payload, q ("policy.cancelled", payload) = false) :
    ∀ type ∈ policyTypes, ∀ payload, q (type, payload) = false := by
  simp only [policyTypes, List.forall_mem_cons, List.not_mem_nil, false_implies, implies_true,
    and_true]
  exact ⟨created, updated, cancelled⟩

theorem forall_claimTypes {q : String × Json → Bool}
    (filed : ∀ payload, q ("claim.filed", payload) = false)
    (statusChanged : ∀ payload, q ("claim.status_changed", payload) = false)
    (resolved : ∀ payload, q ("claim.resolved", payload) = false) :
    ∀ type ∈ claimTypes, ∀ payload, q (type, payload) = false := by
  simp only [claimTypes, List.forall_mem_cons, List.not_mem_nil, false_implies, implies_true,
    and_true]
  exact ⟨filed, statusChanged, resolved⟩

/-! ## The figures -/

theorem auditTrail_perm {rows : List AuditConsumer.AuditEvent} {es stored : List OutboxEvent}
    (perm : es.Perm stored) (tell : List.Forall₂ Tells rows es) :
    (auditTrail rows).Perm (trailOf stored) := by
  have same : auditTrail rows = trailOf es := by
    clear perm
    induction tell with
    | nil => rfl
    | cons told _ ih =>
      simp only [auditTrail, trailOf, List.map_cons] at ih ⊢
      rw [told.eventType, told.payload, ih]
  rw [same]
  exact perm.map _

/-- Once the pipeline has settled, the audit log gives the claims by status, their
sum and the open claims, if the transitions have committed as read, and the active
policies with the sum of the policies by type. -/
theorem audit_log_gives_figures {customers : List PolicyService.Customer}
    {as : List (Action j k)} {s : State j k}
    (hrun : Runs.run (step c) (init customers) as = some s)
    (answers : Runs.Steps (step c) Available (init customers) as) (settled : Settled s)
    (asRead : Runs.Steps (step c) AsRead (init customers) as) (today : Date) :
    ClaimMetrics.Follows
        (ClaimMetrics.getMetrics today s.claims.requests.db s.claims.requests.db
          s.claims.requests.db) (auditTrail s.audit.store.rows) ∧
      PolicyMetrics.Follows
        (PolicyMetrics.getMetrics today s.policies.requests.db s.policies.requests.db
          s.policies.requests.db s.policies.requests.db) (auditTrail s.audit.store.rows) := by
  obtain ⟨es, perm, tell⟩ := audit_complete hrun answers settled
  have trail := auditTrail_perm perm tell
  rw [Pipeline.State.stored, trail_append] at trail
  have policiesRun := policies_part.run hrun
  have claimsRun := claims_part.run hrun
  have ofPolicies := policy_types.run (fun e he => absurd he List.not_mem_nil) policiesRun
  have ofClaims := claim_types.run (fun e he => absurd he List.not_mem_nil) claimsRun
  have claimCount : ∀ q : String × Json → Bool,
      (∀ type ∈ policyTypes, ∀ payload, q (type, payload) = false) →
        (auditTrail s.audit.store.rows).countP q =
          (trailOf s.claims.requests.db.outbox).countP q := by
    intro q others
    rw [trail.countP_eq, List.countP_append, countP_other ofPolicies others, Nat.zero_add]
  have policyCount : ∀ q : String × Json → Bool,
      (∀ type ∈ claimTypes, ∀ payload, q (type, payload) = false) →
        (auditTrail s.audit.store.rows).countP q =
          (trailOf s.policies.requests.db.outbox).countP q := by
    intro q others
    rw [trail.countP_eq, List.countP_append, countP_other ofClaims others, Nat.add_zero]
  constructor
  · have balanced := ((ClaimMetrics.always_balanced_iff _).mpr (claims_asRead hrun asRead)).last
      claimsRun
    have follows := (ClaimMetrics.follows_iff_balanced today _).mpr balanced
    have counts := fun q created updated cancelled =>
      claimCount q (forall_policyTypes created updated cancelled)
    have filed := counts ClaimMetrics.isFiled (fun _ => rfl) (fun _ => rfl) (fun _ => rfl)
    have resolved := counts ClaimMetrics.isResolved (fun _ => rfl) (fun _ => rfl) (fun _ => rfl)
    constructor
    · intro status
      rw [counts (ClaimMetrics.leaves status) (fun _ => rfl) (fun _ => rfl) (fun _ => rfl),
        counts (ClaimMetrics.reaches status) (fun _ => rfl) (fun _ => rfl) (fun _ => rfl)]
      exact follows.byStatus status
    · rw [filed, resolved]
      exact follows.openClaims
    · rw [filed]
      exact follows.total
  · have counted := PolicyMetrics.coherent.run (Requests.coherent_init
      (PolicyMetrics.counted_init customers)) policiesRun
    have follows := PolicyMetrics.follows_of_counted counted.db today
    have counts := fun q filed statusChanged resolved =>
      policyCount q (forall_claimTypes filed statusChanged resolved)
    refine ⟨?_, follows.byType⟩
    rw [counts PolicyMetrics.isCancelled (fun _ => rfl) (fun _ => rfl) (fun _ => rfl),
      counts PolicyMetrics.isCreated (fun _ => rfl) (fun _ => rfl) (fun _ => rfl)]
    exact follows.activePolicies

theorem exampleRun_asRead : Runs.Steps (step exampleConfig) AsRead
    (init [PolicyRecords.exampleCustomer]) exampleRun := by
  decide +kernel

theorem exampleRun_figures : ∃ s, Runs.run (step exampleConfig)
      (init [PolicyRecords.exampleCustomer]) exampleRun = some s ∧
    ClaimMetrics.Follows
        (ClaimMetrics.getMetrics exampleDay s.claims.requests.db s.claims.requests.db
          s.claims.requests.db) (auditTrail s.audit.store.rows) ∧
      PolicyMetrics.Follows
        (PolicyMetrics.getMetrics exampleDay s.policies.requests.db s.policies.requests.db
          s.policies.requests.db s.policies.requests.db) (auditTrail s.audit.store.rows) := by
  obtain ⟨s, hs, -⟩ := Option.map_eq_some_iff.mp exampleRun_ends
  exact ⟨s, hs, audit_log_gives_figures hs exampleRun_answers (exampleRun_settled hs)
    exampleRun_asRead exampleDay⟩

end AuditFigures
