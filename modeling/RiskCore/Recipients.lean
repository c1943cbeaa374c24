import RiskCore.Redelivery

/-!
# Whom a notification reaches

An event goes from its builder through the outbox and the relay to
`NotificationKafkaConsumer._handle_message`, which reads a recipient and a
context back out of the payload. `ClaimEventBuilder` puts the claimant's address
into it; `PolicyEventBuilder` puts in no address, and the consumer falls back to
`DEFAULT_FROM_EMAIL`.
-/

namespace Recipients

open Values Outbox OutboxRelay Payloads Redelivery
open NotificationConsumer hiding Store

/-- What an event is about. -/
inductive Subject where
  | policy (customer : PolicyService.Customer) (policy : PolicyService.Policy)
  | claim (claim : ClaimService.Claim)

/-- The address of the insured party. -/
def Subject.email : Subject → String
  | .policy customer _ => customer.email
  | .claim filed => filed.claimantEmail

/-- What the context of a notification of this type has to say. -/
def Subject.facts (eventType : String) : Subject → Dict
  | .policy _ held => [("policy_number", .str held.policyNumber)]
  | .claim filed =>
    ("claim_number", .str filed.claimNumber) ::
      if eventType = "claim.status_changed" then [("new_status", .str filed.status.value)] else []

/-- An event that a successful call adds to the outbox, about the row the call
leaves under the event's aggregate identifier and, for a policy, its customer. -/
inductive Emitted (e : OutboxEvent) : Subject → Prop where
  | policy {validate : PolicyService.Call → Except PolicyService.PolicyError Unit}
      {db db' : PolicyService.Store} {env : PolicyService.Env} {c : PolicyService.Call}
      {v : PolicyService.View c} {customer : PolicyService.Customer}
      {policy : PolicyService.Policy}
      (committed : (PolicyService.service validate).commit db env c v = .ok db')
      (new : e ∈ db'.outbox.drop db.outbox.length)
      (row : Tables.find PolicyService.Policy.id db'.policies e.aggregateId = some policy)
      (owner : customer.id = policy.customerId) : Emitted e (.policy customer policy)
  | claim {db db' : ClaimService.Store} {env : ClaimService.Env} {c : ClaimService.Call}
      {v : ClaimService.View c} {claim : ClaimService.Claim}
      (committed : ClaimService.service.commit db env c v = .ok db')
      (new : e ∈ db'.outbox.drop db.outbox.length)
      (row : Tables.find ClaimService.Claim.id db'.claims e.aggregateId = some claim) :
      Emitted e (.claim claim)

/-- `_handle_message` creates this row for the message the relay makes of `e`. -/
def Creates (rt : Runtime) (defaultFromEmail : String) (e : OutboxEvent) (n : Notification) :
    Prop :=
  ∃ store id now, (handler rt defaultFromEmail).next (message e) .create (.created id now) store =
    some (store, .goto (.delay n))

/-- The row has the address of the insured party and says what the aggregate says. -/
structure Informs (about : Subject) (e : OutboxEvent) (n : Notification) : Prop where
  recipient : n.recipientEmail = about.email
  context : ∀ entry ∈ about.facts e.eventType, n.context.lookup entry.1 = some entry.2

/-- A policy's customer has the default address, or a claim has an address at all. -/
def Addressed (defaultFromEmail : String) : Subject → Prop
  | .policy customer _ => customer.email = defaultFromEmail
  | .claim filed => filed.claimantEmail ≠ "" ∨ defaultFromEmail = ""

/-! ## What the builders write -/

/-- The entries of `data` that the consumer reads for an event of this type. -/
def Subject.Filled (eventType : String) (data : Dict) : Subject → Prop
  | .policy _ held =>
    (eventType = "policy.created" ∨ eventType = "policy.cancelled") ∧
      data.lookup "customer_email" = none ∧
      data.lookup "policy_number" = some (.str held.policyNumber)
  | .claim filed =>
    (eventType = "claim.filed" ∨ eventType = "claim.status_changed" ∨
        eventType = "claim.resolved") ∧
      data.lookup "claimant_email" = some (.str filed.claimantEmail) ∧
      data.lookup "claim_number" = some (.str filed.claimNumber) ∧
      (eventType = "claim.status_changed" →
        data.lookup "to_status" = some (.str filed.status.value))

/-- The payload is a builder's, and its data has these entries. -/
def Carries (about : Subject) (e : OutboxEvent) : Prop :=
  ∃ eventId t service data, e.payload = envelope eventId e.eventType t service data ∧
    about.Filled e.eventType data

section
open PolicyService

theorem created_carries (env : Env) (n : Nat) (customer : Customer) (policy : Policy) :
    Carries (.policy customer policy) (createdEvent env n policy) :=
  ⟨_, _, _, _, rfl, Or.inl rfl, rfl, rfl⟩

theorem cancelled_carries (env : Env) (customer : Customer) (policy : Policy) :
    Carries (.policy customer policy) (cancelledEvent env policy) := by
  have absent : (baseData policy).lookup "cancellation_reason" = none := rfl
  refine ⟨_, _, _, _, rfl, Or.inr rfl, ?_, ?_⟩
  · rw [Dict.lookup_set_new _ absent]
    rfl
  · rw [Dict.lookup_set_new _ absent]
    rfl

theorem policy_carries {validate : Call → Except PolicyError Unit} {db db' : Store} {env : Env}
    {c : Call} {v : View c} {customer : Customer} {policy : Policy} {e : OutboxEvent}
    (committed : (service validate).commit db env c v = .ok db')
    (new : e ∈ db'.outbox.drop db.outbox.length)
    (row : Tables.find Policy.id db'.policies e.aggregateId = some policy)
    (topic : e.topic ∈ notificationTopics) : Carries (.policy customer policy) e := by
  cases c with
  | create data coverages =>
    obtain ⟨number, fresh, rfl⟩ := createPolicy_ok committed
    rw [List.drop_left, List.mem_singleton] at new
    subst new
    have found := Tables.find_insert_self (r := newPolicy env v number data) fresh
    cases found.symm.trans row
    exact created_carries env coverages.length customer _
  | update pk filters data =>
    -- its topic is not among the consumer's
    rcases updatePolicy_ok committed with ⟨-, rfl⟩ | ⟨-, locked, -, rfl⟩
    · rw [List.drop_length] at new
      cases new
    · rw [List.drop_left, List.mem_singleton] at new
      subst new
      exact absurd topic (by simp [notificationTopics, updatedEvent, emitPolicyEvent,
        OutboxEvent.create])
  | cancel pk filters reason =>
    obtain ⟨locked, found, hid, -, rfl⟩ := cancelPolicy_ok committed
    rw [List.drop_left, List.mem_singleton] at new
    subst new
    have keeps : ∀ row : Policy, row.id = v.id →
        (row.saveFields (locked.cancelled (env.now 0) reason)
          [.status, .cancellationReason, .updatedAt]).id = v.id := fun _ h => h
    have written : Tables.find Policy.id (Tables.update Policy.id db.policies v.id
        (fun row => row.saveFields (locked.cancelled (env.now 0) reason)
          [.status, .cancellationReason, .updatedAt])) locked.id =
        some (locked.cancelled (env.now 0) reason) := by
      rw [hid, Tables.find_update_self keeps, found]
      rfl
    cases written.symm.trans row
    exact cancelled_carries env customer _

end

section
open ClaimService

theorem filed_carries (env : Env) (claim : Claim) :
    Carries (.claim claim) (filedEvent env claim) := by
  have absent := baseData_absent claim (k := "estimated_damage") (by decide)
  refine ⟨_, _, _, _, rfl, Or.inl rfl, ?_, ?_, ?_⟩
  · rw [Dict.lookup_set_new _ absent]
    rfl
  · rw [Dict.lookup_set_new _ absent]
    rfl
  · intro h
    have other : "claim.filed" = "claim.status_changed" := h
    exact absurd other (by decide)

theorem statusChanged_carries (env : Env) {claim : Claim} (fromStatus : Claim.Status)
    {req : TransitionRequest} (status : claim.status = req.newStatus) :
    Carries (.claim claim) (statusChangedEvent env claim fromStatus req) := by
  have absent : (Dict.set (Dict.set (baseData claim) "from_status" (.str fromStatus.value))
      "to_status" (.str req.newStatus.value)).lookup "approved_amount" = none := by
    rw [lookup_statusChanged, baseData_absent claim (by decide)]
    rfl
  refine ⟨_, _, _, _, rfl, Or.inr (Or.inl rfl), ?_, ?_, fun _ => ?_⟩
  · rw [withApprovedAmount_other absent (by decide), lookup_statusChanged]
    rfl
  · rw [withApprovedAmount_other absent (by decide), lookup_statusChanged]
    rfl
  · rw [withApprovedAmount_other absent (by decide), lookup_statusChanged,
      baseData_absent claim (by decide), status]
    rfl

theorem resolved_carries {env : Env} {claim : Claim} {req : TransitionRequest} {e : OutboxEvent}
    (new : e ∈ resolvedEvents env claim req) :
    Carries (.claim claim) e ∧ e.aggregateId = claim.id := by
  unfold resolvedEvents at new
  split at new
  · rw [List.mem_singleton] at new
    subst new
    have absent := baseData_absent claim (k := "approved_amount") (by decide)
    refine ⟨⟨_, _, _, _, rfl, Or.inr (Or.inr rfl), ?_, ?_, ?_⟩, rfl⟩
    · rw [withApprovedAmount_other absent (by decide)]
      rfl
    · rw [withApprovedAmount_other absent (by decide)]
      rfl
    · intro h
      have other : "claim.resolved" = "claim.status_changed" := h
      exact absurd other (by decide)
  · cases new

theorem claim_carries {db db' : Store} {env : Env} {c : Call} {v : View c} {claim : Claim}
    {e : OutboxEvent} (committed : service.commit db env c v = .ok db')
    (new : e ∈ db'.outbox.drop db.outbox.length)
    (row : Tables.find Claim.id db'.claims e.aggregateId = some claim) :
    Carries (.claim claim) e := by
  cases c with
  | file data =>
    obtain ⟨number, fresh, rfl⟩ := fileClaim_ok committed
    rw [List.drop_left, List.mem_singleton] at new
    subst new
    have found := Tables.find_insert_self (r := newClaim env number data) fresh
    cases found.symm.trans row
    exact filed_carries env _
  | transition req =>
    obtain ⟨locked, found, hid, rfl⟩ := transitionStatus_ok committed
    rw [List.drop_left] at new
    have keeps : ∀ row : Claim, row.id = v.id →
        (row.transitioned (env.now 0) req).id = v.id := fun _ h => h
    have written : Tables.find Claim.id (Tables.update Claim.id db.claims v.id
        (fun row => row.transitioned (env.now 0) req)) locked.id =
        some (locked.transitioned (env.now 0) req) := by
      rw [hid, Tables.find_update_self keeps, found]
      rfl
    rcases List.mem_cons.mp new with rfl | resolved
    · cases written.symm.trans row
      exact statusChanged_carries env v.status rfl
    · obtain ⟨carries, haggregate⟩ := resolved_carries resolved
      rw [haggregate] at row
      cases written.symm.trans row
      exact carries

end

theorem Emitted.carries {about : Subject} {e : OutboxEvent} (emitted : Emitted e about)
    (topic : e.topic ∈ notificationTopics) : Carries about e := by
  cases emitted with
  | policy committed new row owner => exact policy_carries committed new row topic
  | claim committed new row => exact claim_carries committed new row

/-! ## What the consumer reads -/

/-- The address a row gets. -/
def Subject.recipient (defaultFromEmail : String) : Subject → String
  | .policy _ _ => defaultFromEmail
  | .claim filed => if filed.claimantEmail ≠ "" then filed.claimantEmail else defaultFromEmail

theorem extractRecipient_filled (defaultFromEmail : String) {about : Subject} {eventType : String}
    {data : Dict} (filled : about.Filled eventType data) :
    extractRecipient defaultFromEmail (.obj data) eventType =
      some (.str (about.recipient defaultFromEmail)) := by
  cases about with
  | policy customer held =>
    obtain ⟨htype, hemail, -⟩ := filled
    have other : startsWith eventType "claim." = false := by
      rcases htype with rfl | rfl <;> rfl
    simp only [extractRecipient, other, get_absent hemail]
    rfl
  | claim filed =>
    obtain ⟨htype, hemail, -⟩ := filled
    have claims : startsWith eventType "claim." = true := by
      rcases htype with rfl | rfl | rfl <;> rfl
    simp only [extractRecipient, claims, get_found hemail]
    by_cases empty : filed.claimantEmail = ""
    · simp [truthy, Subject.recipient, empty]
    · simp [truthy, Subject.recipient, empty]

theorem buildContext_filled {about : Subject} {eventType : String} {data : Dict}
    (filled : about.Filled eventType data) :
    ∃ context, buildContext eventType (.obj data) = some context ∧
      ∀ entry ∈ about.facts eventType, context.lookup entry.1 = some entry.2 := by
  cases about with
  | policy customer held =>
    obtain ⟨htype, -, hnumber⟩ := filled
    have policies : startsWith eventType "policy." = true := by
      rcases htype with rfl | rfl <;> rfl
    refine ⟨[("policy_number", .str held.policyNumber)], ?_, ?_⟩
    · simp [buildContext, policies, get_found hnumber]
    · simp [Subject.facts]
  | claim filed =>
    obtain ⟨htype, -, hnumber, hstatus⟩ := filled
    rcases htype with rfl | rfl | rfl
    · refine ⟨[("claim_number", .str filed.claimNumber)], ?_, ?_⟩
      · simp [buildContext, startsWith, get_found hnumber]
      · simp [Subject.facts]
    · refine ⟨[("claim_number", .str filed.claimNumber), ("new_status", .str filed.status.value)],
        ?_, ?_⟩
      · simp [buildContext, startsWith, get_found hnumber, get_found (hstatus rfl)]
      · simp [Subject.facts, List.lookup_cons]
    · obtain ⟨amount, hamount⟩ :
          ∃ amount, get (.obj data) "approved_amount" (.str "") = some amount :=
        ⟨_, rfl⟩
      refine ⟨[("claim_number", .str filed.claimNumber), ("approved_amount", amount)], ?_, ?_⟩
      · simp [buildContext, startsWith, get_found hnumber, hamount]
      · simp [Subject.facts]

/-- What `_handle_message` makes of an event: its row, unless the table has one, or
a jump to the duplicate branch. -/
theorem handle_carried (rt : Runtime) (defaultFromEmail : String) {about : Subject}
    {e : OutboxEvent} (carries : Carries about e) :
    ∃ eventId context, eventId? e.payload = some eventId ∧
      (∀ entry ∈ about.facts e.eventType, context.lookup entry.1 = some entry.2) ∧
      ∀ store id now,
        (handler rt defaultFromEmail).next (message e) .create (.created id now) store =
        match Tables.find Notification.eventId store.rows eventId with
        | some _ => some (store, .goto .commitDuplicate)
        | none => some (store, .goto (.delay ⟨id, eventId, e.eventType,
            about.recipient defaultFromEmail, buildSubject e.eventType, context, .pending, now,
            none⟩)) := by
  obtain ⟨eventId, t, service, data, hpayload, filled⟩ := carries
  have hrecipient := extractRecipient_filled defaultFromEmail filled
  obtain ⟨context, hcontext, hfacts⟩ := buildContext_filled filled
  have hdraft : draft defaultFromEmail (message e).value = some ⟨.str eventId.str, e.eventType,
      .str (about.recipient defaultFromEmail), buildSubject e.eventType, context⟩ := by
    have hvalue : (message e).value = e.payload := rfl
    rw [hvalue, hpayload]
    exact draft_envelope hrecipient hcontext eventId t service
  refine ⟨eventId.str, context, by rw [hpayload]; rfl, hfacts, ?_⟩
  intro store id now
  have hcreate := create_eq rt (d := ⟨.str eventId.str, e.eventType,
    .str (about.recipient defaultFromEmail), buildSubject e.eventType, context⟩)
    (rt.column_str eventId.str) (rt.column_str (about.recipient defaultFromEmail)) store.rows id now
  simp only [handler, hdraft, hcreate]
  cases Tables.find Notification.eventId store.rows eventId.str <;> rfl

theorem recipient_eq_email_iff (defaultFromEmail : String) (about : Subject) :
    about.recipient defaultFromEmail = about.email ↔ Addressed defaultFromEmail about := by
  cases about with
  | policy customer held => exact eq_comm
  | claim filed =>
    by_cases empty : filed.claimantEmail = ""
    · simp [Subject.recipient, Subject.email, Addressed, empty]
    · simp [Subject.recipient, Subject.email, Addressed, empty]

/-- Every event of a subscribed topic gives a row, unless the table has one of its
identifier; and all its rows inform the insured party exactly when the default
address is the customer's, or the claim has an address. -/
theorem informs_iff_addressed (defaultFromEmail : String) {about : Subject} {e : OutboxEvent}
    (emitted : Emitted e about) (topic : e.topic ∈ notificationTopics) :
    (∀ rt store id now, (∀ row ∈ store.rows, eventId? e.payload ≠ some row.eventId) →
      ∃ n, (handler rt defaultFromEmail).next (message e) .create (.created id now) store =
        some (store, .goto (.delay n))) ∧
    ((∀ rt n, Creates rt defaultFromEmail e n → Informs about e n) ↔
      Addressed defaultFromEmail about) := by
  have carries := emitted.carries topic
  constructor
  · intro rt store id now new
    obtain ⟨eventId, context, hid, -, hnext⟩ := handle_carried rt defaultFromEmail carries
    have unseen : Tables.find Notification.eventId store.rows eventId = none := by
      refine Tables.find_eq_none.mpr (fun row hrow heq => new row hrow ?_)
      rw [hid, heq]
    exact ⟨_, by rw [hnext, unseen]⟩
  · rw [← recipient_eq_email_iff]
    constructor
    · intro informs
      obtain ⟨eventId, context, -, -, hnext⟩ :=
        handle_carried Parsers.runtime defaultFromEmail carries
      exact (informs Parsers.runtime _ ⟨⟨[], []⟩, ⟨0⟩, exampleInstant 0 0, hnext _ _ _⟩).recipient
    · rintro haddress rt n ⟨store, id, now, hcreated⟩
      obtain ⟨eventId, context, -, hfacts, hnext⟩ := handle_carried rt defaultFromEmail carries
      rw [hnext] at hcreated
      split at hcreated
      · cases hcreated
      · cases hcreated
        exact ⟨haddress, hfacts⟩

open PolicyService PolicyRecords

/-- The policy that the example creation makes. -/
def examplePolicy : Policy := newPolicy (exampleEnv 0) exampleCustomer "POL-2025-000001" exampleData

/-- The event that announces it. -/
def exampleAnnounced : OutboxEvent := createdEvent (exampleEnv 0) 0 examplePolicy

theorem exampleAnnounced_emitted :
    Emitted exampleAnnounced (.policy exampleCustomer examplePolicy) := by
  have committed : (service serializers).commit ⟨[exampleCustomer], [], [], []⟩ (exampleEnv 0)
      (.create exampleData []) exampleCustomer =
      .ok ⟨[exampleCustomer], [examplePolicy], [], [exampleAnnounced]⟩ := rfl
  exact .policy committed (List.mem_singleton_self _) rfl rfl

theorem exampleAnnounced_informs :
    (∀ rt store id now, (∀ row ∈ store.rows,
      eventId? exampleAnnounced.payload ≠ some row.eventId) →
      ∃ n, (handler rt "ana@test.com").next (message exampleAnnounced) .create
        (.created id now) store = some (store, .goto (.delay n))) ∧
    ((∀ rt n, Creates rt "ana@test.com" exampleAnnounced n →
        Informs (.policy exampleCustomer examplePolicy) exampleAnnounced n) ↔
      Addressed "ana@test.com" (.policy exampleCustomer examplePolicy)) :=
  informs_iff_addressed "ana@test.com" exampleAnnounced_emitted (by decide)

/-- The customer's address is not the default one, and the row has the default one. -/
theorem exampleAnnounced_misses :
    Emitted exampleAnnounced (.policy exampleCustomer examplePolicy) ∧
      exampleAnnounced.topic ∈ notificationTopics ∧
      ∃ n, Creates Parsers.runtime "noreply@riskcore.com" exampleAnnounced n ∧
        ¬ Informs (.policy exampleCustomer examplePolicy) exampleAnnounced n := by
  refine ⟨exampleAnnounced_emitted, by decide, _, ⟨⟨[], []⟩, ⟨0⟩, exampleInstant 0 0, rfl⟩, ?_⟩
  intro informs
  exact absurd informs.recipient (by decide)

end Recipients
