import RiskCore.ClaimRecords
import RiskCore.RawMessages
import RiskCore.Redelivery

/-!
# From the outbox to the dashboard

The bytes the relay makes of an outbox row, the audit row `AuditKafkaConsumer`
makes of them, and the frame `AuditEventsConsumer` sends for it, which the
dashboard parses and holds against `kafkaEventMessageSchema`.
-/

namespace AuditFrames

open Values Outbox Payloads Events JsonText RawMessages AuditConsumer

/-! ## What the API stores -/

theorem policy_commit_builds {validate : PolicyService.Call → Except PolicyService.PolicyError Unit}
    {db db' : PolicyService.Store} {env : PolicyService.Env} {c : PolicyService.Call}
    {v : PolicyService.View c} (h : (PolicyService.service validate).commit db env c v = .ok db')
    (built : ∀ e ∈ db.outbox, FromBuilder e) : ∀ e ∈ db'.outbox, FromBuilder e := by
  cases c with
  | create data coverages =>
    obtain ⟨number, -, rfl⟩ := PolicyService.createPolicy_ok h
    refine List.forall_mem_append.mpr ⟨built, List.forall_mem_singleton.mpr ?_⟩
    exact ⟨.policyCreated _, _, _, _, _, rfl⟩
  | update pk filters data =>
    rcases PolicyService.updatePolicy_ok h with ⟨-, rfl⟩ | ⟨-, row, -, rfl⟩
    · exact built
    · refine List.forall_mem_append.mpr ⟨built, List.forall_mem_singleton.mpr ?_⟩
      exact ⟨.policyUpdated _, _, _, _, _, rfl⟩
  | cancel pk filters reason =>
    obtain ⟨locked, -, -, -, rfl⟩ := PolicyService.cancelPolicy_ok h
    refine List.forall_mem_append.mpr ⟨built, List.forall_mem_singleton.mpr ?_⟩
    exact ⟨.policyCancelled _, _, _, _, _, rfl⟩

theorem claim_commit_builds {db db' : ClaimService.Store} {env : ClaimService.Env}
    {c : ClaimService.Call} {v : ClaimService.View c}
    (h : ClaimService.service.commit db env c v = .ok db')
    (built : ∀ e ∈ db.outbox, FromBuilder e) : ∀ e ∈ db'.outbox, FromBuilder e := by
  cases c with
  | file data =>
    obtain ⟨number, -, rfl⟩ := ClaimService.fileClaim_ok h
    refine List.forall_mem_append.mpr ⟨built, List.forall_mem_singleton.mpr ?_⟩
    exact ⟨.claimFiled _, _, _, _, _, rfl⟩
  | transition req =>
    obtain ⟨locked, -, -, rfl⟩ := ClaimService.transitionStatus_ok h
    refine List.forall_mem_append.mpr ⟨built, ?_⟩
    intro e he
    rcases List.mem_cons.mp he with rfl | he
    · exact ⟨.claimStatusChanged _ _ _, _, _, _, _, rfl⟩
    · unfold ClaimService.resolvedEvents at he
      split at he
      · rw [List.mem_singleton.mp he]
        exact ⟨.claimResolved _, _, _, _, _, rfl⟩
      · cases he

/-- In every run of either service, the outbox holds events of the builders. -/
theorem stored_fromBuilder :
    (∀ validate customers as (s : PolicyService.State),
      Runs.run (PolicyService.step validate) (PolicyService.init customers) as = some s →
      ∀ e ∈ s.db.outbox, FromBuilder e) ∧
    ∀ as (s : ClaimService.State), Runs.run ClaimService.step ClaimService.init as = some s →
      ∀ e ∈ s.db.outbox, FromBuilder e := by
  constructor
  · intro validate customers as s hrun
    refine (Requests.db_inductive (P := fun db => ∀ e ∈ db.outbox, FromBuilder e) ?_).run ?_ hrun
    · exact fun db env c v db' hc built => policy_commit_builds hc built
    · intro e he
      cases he
  · intro as s hrun
    refine (Requests.db_inductive (P := fun db => ∀ e ∈ db.outbox, FromBuilder e) ?_).run ?_ hrun
    · exact fun db env c v db' hc built => claim_commit_builds hc built
    · intro e he
      cases he

/-! ## What the builders return, as a document -/

/-- Setting a key keeps the keys distinct. -/
theorem set_keys_nodup {d : Dict} (h : (d.map Prod.fst).Nodup) (k : String) (v : Json) :
    ((Dict.set d k v).map Prod.fst).Nodup := by
  unfold Dict.set
  split
  · have same : (d.map (fun e => if e.1 = k then (k, v) else e)).map Prod.fst = d.map Prod.fst := by
      rw [List.map_map]
      refine List.map_congr_left (fun e _ => ?_)
      simp only [Function.comp_apply]
      split
      · rename_i hk
        exact hk.symm
      · rfl
    rw [same]
    exact h
  · rename_i absent
    have hnone : d.lookup k = none := Option.not_isSome_iff_eq_none.mp absent
    rw [List.lookup_eq_none_iff] at hnone
    rw [List.map_append, List.map_singleton]
    refine List.nodup_append.mpr ⟨h, List.nodup_singleton k, ?_⟩
    intro j hj j' hj' hsame
    obtain ⟨e, he, rfl⟩ := List.mem_map.mp hj
    have hne := hnone e he
    rw [List.mem_singleton.mp hj'] at hsame
    simp [hsame] at hne

theorem plain_set {n : Nat} {d : Dict} {v : Json} (h : Plain (n + 1) (.obj d)) (hv : Plain n v)
    (k : String) : Plain (n + 1) (.obj (Dict.set d k v)) := by
  cases h with
  | obj keys h =>
    refine .obj (set_keys_nodup keys k v) ?_
    intro f hf
    unfold Dict.set at hf
    split at hf
    · obtain ⟨e, he, rfl⟩ := List.mem_map.mp hf
      split
      · exact hv
      · exact h e he
    · rcases List.mem_append.mp hf with hf | hf
      · exact h f hf
      · rw [List.mem_singleton.mp hf]
        exact hv

theorem plain_policyData (policy : PolicyService.Policy) :
    Plain 1 (.obj (PolicyService.baseData policy)) := by
  refine .obj (by simp [PolicyService.baseData]) ?_
  simp [PolicyService.baseData, Plain.str]

theorem plain_claimData (claim : ClaimService.Claim) :
    Plain 1 (.obj (ClaimService.baseData claim)) := by
  refine .obj (by simp [ClaimService.baseData]) ?_
  simp [ClaimService.baseData, Plain.str]

theorem plain_withApprovedAmount (claim : ClaimService.Claim) {data : Dict}
    (h : Plain 1 (.obj data)) : Plain 1 (.obj (ClaimService.withApprovedAmount claim data)) := by
  unfold ClaimService.withApprovedAmount
  split
  · exact plain_set h .str _
  · exact h

theorem plain_envelope {data : Dict} (h : Plain 1 (.obj data)) (eventId : UUID)
    (eventType : String) (occurredAt : DateTime) (service : String) :
    Plain 2 (envelope eventId eventType occurredAt service data) := by
  refine .obj (by simp) ?_
  simp [Plain.str, h]

/-- A payload holds strings, and its `data` holds strings. -/
theorem plain_payload (b : Build) (eventId : UUID) (occurredAt : DateTime) :
    Plain 2 (b.payload eventId occurredAt) := by
  cases b with
  | policyCreated policy => exact plain_envelope (plain_policyData policy) _ _ _ _
  | policyUpdated policy => exact plain_envelope (plain_policyData policy) _ _ _ _
  | policyCancelled policy =>
    exact plain_envelope (plain_set (plain_policyData policy) .str _) _ _ _ _
  | claimFiled claim => exact plain_envelope (plain_set (plain_claimData claim) .str _) _ _ _ _
  | claimStatusChanged claim fromStatus toStatus =>
    refine plain_envelope (plain_withApprovedAmount claim ?_) _ _ _ _
    exact plain_set (plain_set (plain_claimData claim) .str _) .str _
  | claimResolved claim =>
    exact plain_envelope (plain_withApprovedAmount claim (plain_claimData claim)) _ _ _ _

/-! ## The message and its row -/

/-- What the relay hands to `producer.produce`. -/
def produced (number : Int → Int → List Char) (e : OutboxEvent) : RawMessage :=
  ⟨(OutboxRelay.message e).topic, (OutboxRelay.message e).key,
    some (encode number (OutboxRelay.message e).value)⟩

/-- The parsers of the standard library and Django, with any `str()` of values that
are not strings. -/
def runtime (str : Json → String) : Runtime := { Parsers.runtime with str := str }

@[simp] theorem runtime_parseUuid (str : Json → String) :
    (runtime str).parseUuid = Parsers.parseUuid := rfl

@[simp] theorem runtime_parseDatetime (str : Json → String) :
    (runtime str).parseDatetime = Parsers.parseDatetime := rfl

theorem runtime_faithful (str : Json → String) : Parsers.Faithful (runtime str) := by
  constructor
  · intro u
    rw [runtime_parseUuid, Parsers.parseUuid_str]
  · intro t
    rw [runtime_parseDatetime, Parsers.parseDatetime_isoformat]

/-- The row of an event. -/
def row (b : Build) (eventId : UUID) (occurredAt : DateTime) (id : UUID) (receivedAt : DateTime) :
    AuditEvent where
  id := id
  eventId := eventId.str
  eventType := b.eventType
  kafkaTopic := b.eventType
  entityType := b.entity.1
  entityId := b.entity.2
  service := b.service
  occurredAt := occurredAt
  receivedAt := receivedAt
  payload := b.payload eventId occurredAt

/-- An audit row with what a payload says, about the thing its event is about. -/
structure IsEvent (b : Build) (occurredAt : DateTime) (payload : Json) (event : AuditEvent) :
    Prop where
  eventId : payload.get? "event_id" = some (.str event.eventId)
  eventType : payload.get? "event_type" = some (.str event.eventType)
  topic : event.kafkaTopic = event.eventType
  service : payload.get? "service" = some (.str event.service)
  whole : event.payload = payload
  instant : event.occurredAt = occurredAt
  rendered : payload.get? "occurred_at" = some (.str event.occurredAt.isoformat)
  entity : (event.entityType, event.entityId) = b.entity

theorem row_isEvent (b : Build) (eventId : UUID) (occurredAt : DateTime) (id : UUID)
    (receivedAt : DateTime) :
    IsEvent b occurredAt (b.payload eventId occurredAt)
      (row b eventId occurredAt id receivedAt) := by
  obtain ⟨data, hpayload⟩ := b.payload_eq
  constructor
  case topic => rfl
  case whole => rfl
  case instant => rfl
  case entity => rfl
  all_goals
    rw [hpayload]
    rfl

theorem processEvent_build (str : Json → String) (b : Build) (eventId : UUID)
    (occurredAt : DateTime) {rows : List AuditEvent}
    (new : Tables.find AuditEvent.eventId rows eventId.str = none) (id : UUID)
    (now receivedAt : DateTime) :
    processEvent (runtime str) rows (b.payload eventId occurredAt) b.eventType id now receivedAt =
      .ok (row b eventId occurredAt id receivedAt) := by
  obtain ⟨data, hpayload⟩ := b.payload_eq
  have about := Redelivery.extractEntity_build (runtime str) b eventId occurredAt
  rw [hpayload] at about ⊢
  rw [Redelivery.processEvent_about (runtime_faithful str) about, new, row, hpayload]

/-- `_handle` stores the event and goes on to broadcast it. -/
theorem handled_build (str : Json → String) (b : Build) (eventId : UUID) (occurredAt : DateTime)
    {store : Store} (new : Tables.find AuditEvent.eventId store.rows eventId.str = none)
    (key : String) (id : UUID) (now receivedAt : DateTime) :
    (handler (runtime str)).next ⟨b.eventType, key, b.payload eventId occurredAt⟩ .process
        (.created id now receivedAt) store =
      some ({ store with
        rows := Tables.insert store.rows (row b eventId occurredAt id receivedAt) },
        .goto (.broadcast (row b eventId occurredAt id receivedAt))) := by
  have hprocess := processEvent_build str b eventId occurredAt new id now receivedAt
  obtain ⟨data, hpayload⟩ := b.payload_eq
  simp only [handler]
  split
  · rw [hprocess]
  · rename_i noObject
    exact absurd (hpayload eventId occurredAt) (noObject _)

/-! ## The frame -/

/-- `DateTimeField.to_representation`. -/
def toRepresentation (t : DateTime) : String :=
  let value := t.isoformat.toList
  if "+00:00".toList <:+ value then String.ofList (value.take (value.length - 6) ++ ['Z'])
  else t.isoformat

/-- `AuditEventSerializer(event).data`. -/
def serialized (event : AuditEvent) : Json :=
  .obj [("id", .str event.id.str),
    ("event_id", .str event.eventId),
    ("event_type", .str event.eventType),
    ("kafka_topic", .str event.kafkaTopic),
    ("entity_type", .str event.entityType),
    ("entity_id", .str event.entityId.str),
    ("service", .str event.service),
    ("occurred_at", .str (toRepresentation event.occurredAt)),
    ("received_at", .str (toRepresentation event.receivedAt)),
    ("payload", event.payload)]

/-- The text `audit_event` sends. -/
def frame (number : Int → Int → List Char) (event : AuditEvent) : List Char :=
  print number (serialized event)

/-! ## The dashboard -/

/-- `JSON.parse`: every number is a double, `NaN` and the infinities are no JSON, and
brackets nest as deep as they may. -/
def parse (number : List Char → Int × Int) (lone : Nat → Char) (text : List Char) : Read :=
  loads {
    number := fun numeral => some (.num (number numeral).1 (number numeral).2)
    constant := fun _ => none
    lone := lone
    depth := text.length } text

/-- The validators `kafkaEventMessageSchema` is made of: `z.string()`,
`z.string().uuid()` and `z.record(z.string(), z.unknown())`. -/
inductive Schema where
  | string
  | uuid
  | record

def isHex (c : Char) : Bool := (Parsers.digitValue c).isSome

/-- `/^[0-9a-fA-F]{8}-[0-9a-fA-F]{4}-[0-9a-fA-F]{4}-[0-9a-fA-F]{4}-[0-9a-fA-F]{12}$/`. -/
def isUuid (s : String) : Bool :=
  let groups := s.toList.splitOn '-'
  groups.map List.length = [8, 4, 4, 4, 12] && groups.all (fun group => group.all isHex)

def Schema.accepts : Schema → Json → Bool
  | .string, .str _ => true
  | .uuid, .str s => isUuid s
  | .record, .obj _ => true
  | _, _ => false

def kafkaEventMessageSchema : List (String × Schema) :=
  [("id", .uuid),
   ("event_id", .uuid),
   ("event_type", .string),
   ("kafka_topic", .string),
   ("entity_type", .string),
   ("entity_id", .uuid),
   ("service", .string),
   ("occurred_at", .string),
   ("received_at", .string),
   ("payload", .record)]

/-- `z.object(shape).safeParse(raw).success`; no field is optional. -/
def safeParse (shape : List (String × Schema)) : Json → Bool
  | .obj fields => shape.all (fun (k, schema) =>
    match fields.lookup k with
    | some j => schema.accepts j
    | none => false)
  | _ => false

/-- The groups the digits of an identifier are printed in. -/
def groups (hex : List Char) : List (List Char) :=
  [hex.take 8, (hex.drop 8).take 4, (hex.drop 12).take 4, (hex.drop 16).take 4, hex.drop 20]

theorem mem_groups {hex group : List Char} (h : group ∈ groups hex) {c : Char} (hc : c ∈ group) :
    c ∈ hex := by
  simp only [groups, List.mem_cons, List.not_mem_nil, or_false] at h
  rcases h with rfl | rfl | rfl | rfl | rfl
  · exact List.mem_of_mem_take hc
  · exact List.mem_of_mem_drop (List.mem_of_mem_take hc)
  · exact List.mem_of_mem_drop (List.mem_of_mem_take hc)
  · exact List.mem_of_mem_drop (List.mem_of_mem_take hc)
  · exact List.mem_of_mem_drop hc

theorem str_groups (u : UUID) :
    u.str.toList = ['-'].intercalate (groups (Digits.fixed 16 32 u.bits.toNat)) := by
  simp [UUID.str, groups, List.intercalate_cons_cons]

theorem isHex_fixed {w n : Nat} {c : Char} (h : c ∈ Digits.fixed 16 w n) : isHex c = true := by
  obtain ⟨d, hd, rfl⟩ := Digits.mem_fixed (by decide) h
  rw [isHex, Parsers.digitValue_digitChar hd]
  rfl

/-- The text of an identifier is in the format zod asks for. -/
theorem isUuid_str (u : UUID) : isUuid u.str = true := by
  have split : u.str.toList.splitOn '-' = groups (Digits.fixed 16 32 u.bits.toNat) := by
    rw [str_groups]
    refine List.splitOn_intercalate '-' ?_ (by simp [groups])
    intro group hgroup hyphen
    exact Parsers.mem_fixed_ne_hyphen '-' (mem_groups hgroup hyphen) rfl
  have lengths : (groups (Digits.fixed 16 32 u.bits.toNat)).map List.length = [8, 4, 4, 4, 12] := by
    simp [groups]
  have hex : (groups (Digits.fixed 16 32 u.bits.toNat)).all (fun group => group.all isHex) =
      true := by
    simp only [List.all_eq_true]
    exact fun group hgroup c hc => isHex_fixed (mem_groups hgroup hc)
  simp only [isUuid, split, lengths, hex, decide_true, Bool.and_self]

theorem plain_serialized {event : AuditEvent} (h : Plain 2 event.payload) :
    Plain 3 (serialized event) := by
  refine .obj (by simp) ?_
  simp [Plain.str, h]

/-- The dashboard reads what was serialized. -/
theorem parse_frame (number : Int → Int → List Char) (double : List Char → Int × Int)
    (lone : Nat → Char) {event : AuditEvent} (h : Plain 2 event.payload) :
    parse double lone (frame number event) = .value (serialized event) := by
  have deep : 3 ≤ (frame number event).length := by
    simp only [frame, serialized, print, List.length_cons, List.length_append]
    omega
  exact loads_print _ number (plain_serialized h) deep

/-- An audit row with an event's identifier and a document as its payload. -/
theorem safeParse_serialized {event : AuditEvent} {eventId : UUID} {payload : Dict}
    (hid : event.eventId = eventId.str) (hpayload : event.payload = .obj payload) :
    safeParse kafkaEventMessageSchema (serialized event) = true := by
  simp [safeParse, kafkaEventMessageSchema, serialized, Schema.accepts, isUuid_str, hid, hpayload,
    List.lookup_cons]

/-- For every event a builder makes of a policy or a claim: the consumer stores the
message the relay makes of its outbox row as the event it is, and the dashboard reads
and accepts the frame it sends. -/
theorem audit_row_is_event (float double : List Char → Int × Int) (lone surrogate : Nat → Char)
    {depth : Nat} (deep : 2 ≤ depth) (str : Json → String) (number : Int → Int → List Char)
    (b : Build) (id : UUID) (createdAt : DateTime) (eventId : UUID) (occurredAt : DateTime)
    {store : Store} (new : Tables.find AuditEvent.eventId store.rows eventId.str = none)
    (rowId : UUID) (now receivedAt : DateTime) :
    let e := b.emit id createdAt eventId occurredAt
    ∃ event : AuditEvent,
      (decoding (python float lone depth) (handler (runtime str))).next (produced number e)
          .process (.created rowId now receivedAt) store =
        some ({ store with rows := Tables.insert store.rows event }, .goto (.broadcast event)) ∧
      IsEvent b occurredAt e.payload event ∧ (produced number e).topic = event.eventType ∧
      parse double surrogate (frame number event) = .value (serialized event) ∧
      safeParse kafkaEventMessageSchema (serialized event) = true := by
  intro e
  have hvalue : e.payload = b.payload eventId occurredAt := Build.emit_payload b id createdAt _ _
  have htopic : (produced number e).topic = b.eventType := Build.emit_topic b id createdAt _ _
  have plain : Plain 2 (b.payload eventId occurredAt) := plain_payload b eventId occurredAt
  have decoded : decode (python float lone depth) (produced number e).value =
      .value (b.payload eventId occurredAt) := by
    rw [← hvalue] at plain ⊢
    exact decode_encode _ number plain deep
  have handled := handled_build str b eventId occurredAt new (produced number e).key rowId now
    receivedAt
  obtain ⟨data, hpayload⟩ := b.payload_eq
  refine ⟨row b eventId occurredAt rowId receivedAt, ?_, ?_, htopic, ?_, ?_⟩
  · rw [next_decoded decoded, htopic, handled]
  · rw [hvalue]
    exact row_isEvent b eventId occurredAt rowId receivedAt
  · exact parse_frame number double surrogate plain
  · exact safeParse_serialized rfl (hpayload eventId occurredAt)

/-- A claim is taken under review. -/
def exampleTransition : Build :=
  .claimStatusChanged (ClaimService.newClaim (ClaimRecords.exampleEnv 0) "CLM-2025-000001"
    ClaimRecords.exampleData) .filed .underReview

theorem exampleTransition_audited : ∃ event : AuditEvent,
    IsEvent exampleTransition (exampleInstant 10 0)
      (exampleTransition.payload ⟨101⟩ (exampleInstant 10 0)) event ∧
    event.entityType = "claim" ∧ event.entityId = ⟨0⟩ ∧
    safeParse kafkaEventMessageSchema (serialized event) = true := by
  have deep : 2 ≤ 1000 := by decide
  have new : Tables.find AuditEvent.eventId (Store.mk [] []).rows (UUID.str ⟨101⟩) = none := rfl
  obtain ⟨event, -, isEvent, -, -, accepted⟩ := audit_row_is_event (fun _ => (0, 0))
    (fun _ => (0, 0)) (fun _ => '\ufffd') (fun _ => '\ufffd') deep (fun _ => "") (fun _ _ => [])
    exampleTransition ⟨100⟩ (exampleInstant 10 0) ⟨101⟩ (exampleInstant 10 0) new ⟨102⟩
    (exampleInstant 11 0) (exampleInstant 11 0)
  exact ⟨event, isEvent, congrArg Prod.fst isEvent.entity, congrArg Prod.snd isEvent.entity,
    accepted⟩

end AuditFrames
