import RiskCore.AuditFigures
import RiskCore.ClaimReplay
import RiskCore.Querysets

/-!
# The audit trail of a claim

The list of the audit endpoint is filtered by the texts of the request and newest first;
its items are rows without their payloads, and a row is read in full under the identifier
of its item. Once the pipeline has settled, the list for one claim names the events that
claims-service has committed for it, each once and no others. Where the clock moved on
between these, the rows of the list, read from its end, tell the claim's history row by
row, and the first of them shows the claim as it is.
-/

namespace AuditTrails

open Values Outbox Trails Pipeline PipelineDelivery Querysets
open AuditConsumer (AuditEvent)
open AuditFrames (serialized toRepresentation)

variable {j k : Nat} {c : Config}

/-! ## The endpoint -/

/-- The query parameters, as texts. -/
structure AuditParams where
  eventType : Option String
  entityType : Option String
  entityId : Option String
  kafkaTopic : Option String
  fromDate : Option String
  toDate : Option String

/-- `parseDate` is `DateField.to_python`. -/
structure Services where
  backend : Backend
  parseDate : String → Option Date

/-- `if value: qs = qs.filter(occurred_at__date__gte=value)`, and `lte`. -/
def filterDateIf (S : Services) (lookup : Date → Date → Bool) (value : Option String)
    (qs : QuerySet AuditEvent) : Except Exception (QuerySet AuditEvent) :=
  match value with
  | some text =>
    if text = "" then .ok qs
    else
      match S.parseDate text with
      | some day => .ok { qs with rows := qs.rows.filter (fun r => lookup r.occurredAt.date day) }
      | none => .error (.validationError text)
  | none => .ok qs

/-- `AuditEventViewSet.get_queryset`. -/
def getQueryset (S : Services) (params : AuditParams) (rows : List AuditEvent) :
    Except Exception (QuerySet AuditEvent) := do
  let qs := (all rows).filterText S.backend AuditEvent.eventType params.eventType
  let qs := qs.filterText S.backend AuditEvent.entityType params.entityType
  let qs ← qs.filterKeyIf Parsers.parseUuid AuditEvent.entityId params.entityId
  let qs := qs.filterText S.backend AuditEvent.kafkaTopic params.kafkaTopic
  let qs ← filterDateIf S (fun date day => day ≤ date) params.fromDate qs
  filterDateIf S (fun date day => date ≤ day) params.toDate qs

/-- `AuditEventListSerializer(event).data`. -/
def listed (event : AuditEvent) : Json :=
  .obj [("id", .str event.id.str),
    ("event_id", .str event.eventId),
    ("event_type", .str event.eventType),
    ("entity_type", .str event.entityType),
    ("entity_id", .str event.entityId.str),
    ("service", .str event.service),
    ("occurred_at", .str (toRepresentation event.occurredAt))]

/-- The items of `GET /events/`, as its pages are cut from one order of the rows: the
newest first, and rows of one instant in any order. -/
def Lists (S : Services) (params : AuditParams) (rows : List AuditEvent) (items : List Json) :
    Prop :=
  ∃ qs, ∃ listing : List AuditEvent, getQueryset S params rows = .ok qs ∧ qs.refused = false ∧
    listing.Perm qs.rows ∧
    listing.Pairwise (fun newer older => older.occurredAt ≤ newer.occurredAt) ∧
    items = listing.map listed

inductive Raised where
  | auditEventNotFound (eventId : String)
  | unhandled (e : Exception)

/-- `get_object_or_404` turns these into the `Http404` that `get_object` catches. -/
def caught : Exception → Bool
  | .doesNotExist | .validationError _ | .valueError => true
  | .multipleObjectsReturned | .dataError => false

/-- `AuditEventViewSet.get_object`. The queryset is made before `get_object_or_404`. -/
def getObject (S : Services) (params : AuditParams) (rows : List AuditEvent) (pk : String) :
    Except Raised AuditEvent :=
  match getQueryset S params rows with
  | .ok qs => qs.getOr Parsers.parseUuid AuditEvent.id caught (.auditEventNotFound pk) .unhandled pk
  | .error e => .error (.unhandled e)

/-- `GET /events/{pk}/`. -/
def retrieve (S : Services) (params : AuditParams) (rows : List AuditEvent) (pk : String) :
    Except Raised Json :=
  (getObject S params rows pk).map serialized

def noParams : AuditParams := ⟨none, none, none, none, none, none⟩

/-- What the endpoint answers under the identifier of the item. -/
def Retrieves (S : Services) (rows : List AuditEvent) (item answer : Json) : Prop :=
  ∃ pk, item.get? "id" = some (.str pk) ∧ retrieve S noParams rows pk = .ok answer

def ofEntity (entityType : String) (id : UUID) : AuditParams :=
  ⟨none, some entityType, some id.str, none, none, none⟩

/-- The row is about the entity. -/
def isAbout (entityType : String) (id : UUID) (row : AuditEvent) : Bool :=
  row.entityType = entityType && row.entityId = id

theorem getQueryset_ofEntity (S : Services) {entityType : String} (named : entityType ≠ "")
    (id : UUID) (rows : List AuditEvent) : ∃ refused,
      getQueryset S (ofEntity entityType id) rows =
        .ok ⟨rows.filter (isAbout entityType id), refused⟩ := by
  have readable : Readable Parsers.parseUuid (some id.str) := by
    intro given hgiven _
    rw [← Option.mem_some_iff.mp hgiven, Parsers.parseUuid_str]
    rfl
  have written := Parsers.str_ne_empty id
  simp only [getQueryset, ofEntity, filterText_eq, filterKeyIf_of_readable readable, filterDateIf,
    bind, Except.bind, all, passesText, passesKey, Option.all_none, Option.all_some,
    List.filter_filter, named, written, Parsers.parseUuid_str, decide_false, Bool.false_or,
    Bool.true_and, Option.some.injEq]
  refine ⟨_, congrArg (fun kept => Except.ok (QuerySet.mk kept _)) ?_⟩
  refine List.filter_congr (fun row _ => ?_)
  simp [isAbout, Bool.and_comm, eq_comm]

theorem lists_ofEntity {S : Services} {id : UUID} {entityType : String}
    (named : entityType ≠ "") {rows : List AuditEvent} {items : List Json}
    (h : Lists S (ofEntity entityType id) rows items) :
    ∃ listing : List AuditEvent, listing.Perm (rows.filter (isAbout entityType id)) ∧
      listing.Pairwise (fun newer older => older.occurredAt ≤ newer.occurredAt) ∧
      items = listing.map listed := by
  obtain ⟨qs, listing, hqs, -, perm, newest, hitems⟩ := h
  obtain ⟨refused, hrows⟩ := getQueryset_ofEntity S named id rows
  cases hrows.symm.trans hqs
  exact ⟨listing, perm, newest, hitems⟩

/-- Every row is found under its identifier. -/
theorem retrieve_of_mem (S : Services) (T : Table AuditEvent.id) {row : AuditEvent}
    (h : row ∈ T.rows) : retrieve S noParams T.rows row.id.str = .ok (serialized row) := by
  have everything : getQueryset S noParams T.rows = .ok (all T.rows) := by
    simp [getQueryset, noParams, filterText_eq, QuerySet.filterKeyIf, filterDateIf, all, passesText,
      bind, Except.bind]
  have found := Tables.find_of_mem T.unique h
  have got := get_of_find (q := all T.rows) T.unique (Parsers.parseUuid_str row.id) rfl found
  simp only [retrieve, getObject, everything, getOr_of_ok got, Except.map]

theorem retrieves_listed (S : Services) (T : Table AuditEvent.id) {listing : List AuditEvent}
    (h : listing ⊆ T.rows) :
    List.Forall₂ (Retrieves S T.rows) (listing.map listed) (listing.map serialized) := by
  rw [List.forall₂_map_left_iff, List.forall₂_map_right_iff, List.forall₂_same]
  exact fun row hrow => ⟨row.id.str, rfl, retrieve_of_mem S T (h hrow)⟩

/-! ## The rows of one entity -/

/-- The event is about the entity. -/
def concerns (entityType : String) (id : UUID) (e : OutboxEvent) : Bool :=
  e.aggregateType = entityType && e.aggregateId = id

theorem isAbout_eq {row : AuditEvent} {e : OutboxEvent} (told : Tells row e)
    (entityType : String) (id : UUID) : isAbout entityType id row = concerns entityType id e := by
  rw [isAbout, concerns, told.entityType, told.entityId]

/-- Once the pipeline has settled, the rows about an entity, in the order they are listed,
tell the committed events about it, each once. -/
theorem entity_trail {customers : List PolicyService.Customer} {as : List (Action j k)}
    {s : State j k} (hrun : Runs.run (step c) (init customers) as = some s)
    (answers : Runs.Steps (step c) Available (init customers) as) (settled : Settled s)
    {entityType : String} {id : UUID} {listing : List AuditEvent}
    (perm : listing.Perm (s.audit.store.rows.filter (isAbout entityType id))) :
    ∃ es, es.Perm (s.stored.filter (concerns entityType id)) ∧ List.Forall₂ Tells listing es := by
  obtain ⟨es, stored, tell⟩ := audit_complete hrun answers settled
  have kept : List.Forall₂ Tells (s.audit.store.rows.filter (isAbout entityType id))
      (es.filter (concerns entityType id)) :=
    List.rel_filter (p := isAbout entityType id) (q := concerns entityType id)
      (fun row e told => iff_of_eq (congrArg (· = true) (isAbout_eq told entityType id))) tell
  obtain ⟨es', tell', perm'⟩ := List.perm_comp_forall₂ perm kept
  exact ⟨es', perm'.trans (stored.filter _), tell'⟩

theorem aggregate_of_type {e : OutboxEvent} (built : Events.FromBuilder e) :
    (e.eventType ∈ AuditFigures.policyTypes → e.aggregateType = "policy") ∧
      (e.eventType ∈ AuditFigures.claimTypes → e.aggregateType = "claim") := by
  obtain ⟨b, id, createdAt, eventId, occurredAt, rfl⟩ := built
  have haggregate : (b.emit id createdAt eventId occurredAt).aggregateType = b.entity.1 :=
    congrArg Prod.fst (emit_entity b id createdAt eventId occurredAt)
  rw [emit_eventType, haggregate]
  cases b <;> simp [AuditFigures.policyTypes, AuditFigures.claimTypes, Events.Build.eventType,
    Events.Build.entity]

/-- The events about a claim are those of its record. -/
theorem claim_events {customers : List PolicyService.Customer} {as : List (Action j k)}
    {s : State j k} (hrun : Runs.run (step c) (init customers) as = some s) (id : UUID) :
    s.stored.filter (concerns "claim" id) = eventsOf s.claims.requests.db.outbox id := by
  have inv := inv_step.run (inv_init customers) hrun
  have ofPolicies := AuditFigures.policy_types.run (fun e he => absurd he List.not_mem_nil)
    (AuditFigures.policies_part.run hrun)
  have ofClaims := AuditFigures.claim_types.run (fun e he => absurd he List.not_mem_nil)
    (AuditFigures.claims_part.run hrun)
  have none_there : s.policies.requests.db.outbox.filter (concerns "claim" id) = [] := by
    refine List.filter_eq_nil_iff.mpr (fun e he => ?_)
    have own := (aggregate_of_type (inv.built (List.mem_append_left _ he))).1 (ofPolicies e he)
    simp [concerns, own]
  rw [Pipeline.State.stored, List.filter_append, none_there, List.nil_append, eventsOf,
    Tables.select]
  refine List.filter_congr (fun e he => ?_)
  have own := (aggregate_of_type (inv.built (List.mem_append_right _ he))).2 (ofClaims e he)
  simp [concerns, own]

/-! ## The order of the rows -/

/-- The event says when it occurred. -/
def At (e : OutboxEvent) (t : DateTime) : Prop :=
  e.payload.get? "occurred_at" = some (.str t.isoformat)

theorem at_unique {e : OutboxEvent} {t t' : DateTime} (h : At e t) (h' : At e t') : t = t' := by
  have same : t.isoformat = t'.isoformat := by
    simpa only [Option.some.injEq, Json.str.injEq] using h.symm.trans h'
  have read := congrArg Parsers.parseDatetime same
  simpa only [Parsers.parseDatetime_isoformat, Option.some.injEq] using read

/-- The clock moved on from one event to the next. -/
def Chronological (es : List OutboxEvent) : Prop :=
  es.Pairwise (fun e later => ∀ t t', At e t → At later t' → t < t')

theorem chronological_rows {rows : List AuditEvent} {es : List OutboxEvent}
    (tell : List.Forall₂ Tells rows es) (ordered : Chronological es) :
    rows.Pairwise (fun row later => row.occurredAt < later.occurredAt) := by
  induction tell with
  | nil => exact .nil
  | @cons row e rows es told tell ih =>
    obtain ⟨first, rest⟩ := List.pairwise_cons.mp ordered
    refine List.pairwise_cons.mpr ⟨fun later hlater => ?_, ih rest⟩
    obtain ⟨n, hn, rfl⟩ := List.mem_iff_getElem.mp hlater
    have bound : n < es.length := tell.length_eq ▸ hn
    have toldLater : Tells rows[n] es[n] := tell.get hn bound
    exact first es[n] (List.getElem_mem bound) _ _ told.occurredAt toldLater.occurredAt

/-- What is listed newest first is, read from its end, the one order in which the
clock moved on. -/
theorem reverse_eq {listing rows : List AuditEvent} (perm : listing.Perm rows)
    (newest : listing.Pairwise (fun newer older => older.occurredAt ≤ newer.occurredAt))
    (ordered : rows.Pairwise (fun row later => row.occurredAt < later.occurredAt)) :
    listing.reverse = rows := by
  have apart : ∀ row ∈ rows, ∀ row' ∈ rows, row ≠ row' →
      row.occurredAt < row'.occurredAt ∨ row'.occurredAt < row.occurredAt := by
    have either : rows.Pairwise (fun row row' =>
        row.occurredAt < row'.occurredAt ∨ row'.occurredAt < row.occurredAt) := ordered.imp Or.inl
    have symm : Std.Symm (fun row row' : AuditEvent =>
        row.occurredAt < row'.occurredAt ∨ row'.occurredAt < row.occurredAt) :=
      ⟨fun _ _ h => h.symm⟩
    exact fun row hrow row' hrow' hne => either.forall hrow hrow' hne
  have sorted : listing.reverse.Pairwise (fun row later => row.occurredAt ≤ later.occurredAt) :=
    List.pairwise_reverse.mpr newest
  have weakly : rows.Pairwise (fun row later => row.occurredAt ≤ later.occurredAt) :=
    ordered.imp (fun h => Nat.le_of_lt h)
  refine List.Perm.eq_of_pairwise ?_ sorted weakly (listing.reverse_perm.trans perm)
  intro row row' hrow hrow' before after
  by_contra hne
  have hmem : row ∈ rows := perm.mem_iff.mp (List.mem_reverse.mp hrow)
  rcases apart row hmem row' hrow' hne with lt | lt
  · exact Nat.not_lt.mpr after lt
  · exact Nat.not_lt.mpr before lt

/-! ## What the client reads -/

/-- The answer names the event. -/
structure Names (answer : Json) (e : OutboxEvent) : Prop where
  eventId : ∃ eventId, Pipeline.eventId e = some eventId ∧
    answer.get? "event_id" = some (.str eventId)
  eventType : answer.get? "event_type" = some (.str e.eventType)
  entityType : answer.get? "entity_type" = some (.str e.aggregateType)
  entityId : answer.get? "entity_id" = some (.str e.aggregateId.str)
  service : answer.get? "service" = e.payload.get? "service"
  occurredAt : ∃ t, At e t ∧ answer.get? "occurred_at" = some (.str (toRepresentation t))

/-- The answer shows the whole event. -/
structure Shows (answer : Json) (e : OutboxEvent) : Prop where
  names : Names answer e
  topic : answer.get? "kafka_topic" = some (.str e.topic)
  payload : answer.get? "payload" = some e.payload

/-- An answer with the fields both serializers have. -/
theorem names_of_tells {row : AuditEvent} {e : OutboxEvent} (told : Tells row e) {answer : Json}
    (common : ∀ field ∈ ["event_id", "event_type", "entity_type", "entity_id", "service",
      "occurred_at"], answer.get? field = (listed row).get? field) : Names answer e := by
  simp only [List.forall_mem_cons, List.not_mem_nil, false_implies, implies_true, and_true]
    at common
  obtain ⟨hid, htype, hentity, hentityId, hservice, hoccurred⟩ := common
  constructor
  case eventId => exact ⟨row.eventId, told.eventId, hid⟩
  case eventType => exact htype.trans (congrArg (fun text => some (Json.str text)) told.eventType)
  case entityType =>
    exact hentity.trans (congrArg (fun text => some (Json.str text)) told.entityType)
  case entityId =>
    exact hentityId.trans (congrArg (fun id => some (Json.str (UUID.str id))) told.entityId)
  case service => exact hservice.trans told.service.symm
  case occurredAt => exact ⟨row.occurredAt, told.occurredAt, hoccurred⟩

theorem names_listed {row : AuditEvent} {e : OutboxEvent} (told : Tells row e) :
    Names (listed row) e :=
  names_of_tells told (fun _ _ => rfl)

theorem shows_serialized {row : AuditEvent} {e : OutboxEvent} (told : Tells row e) :
    Shows (serialized row) e := by
  constructor
  case names =>
    refine names_of_tells told ?_
    simp only [List.forall_mem_cons, List.not_mem_nil, false_implies, implies_true, and_true]
    exact ⟨rfl, rfl, rfl, rfl, rfl, rfl⟩
  case topic => exact congrArg (fun text => some (Json.str text)) told.topic
  case payload => exact congrArg some told.payload

/-! ## The history of a claim -/

/-- The text of a field. -/
def written (answer : Json) (field : String) : Option String :=
  match answer.get? field with
  | some (.str text) => some text
  | _ => none

def isChange (answer : Json) : Bool :=
  written answer "event_type" = some "claim.filed" ∨
    written answer "event_type" = some "claim.status_changed"

/-- A text of the payload's `data`. -/
def reported (answer : Json) (k : String) : Option String :=
  (answer.get? "payload").bind (fun payload => said payload k)

/-- The answer tells the history row. -/
def Reports (answer : Json) (h : ClaimService.ClaimStatusHistory) : Prop :=
  match h.fromStatus with
  | none => written answer "event_type" = some "claim.filed" ∧ h.toStatus = .filed
  | some fromStatus =>
    written answer "event_type" = some "claim.status_changed" ∧
      reported answer "from_status" = some fromStatus.value ∧
      reported answer "to_status" = some h.toStatus.value

/-- The answer shows the claim as it is. -/
def Describes (answer : Json) (claim : ClaimService.Claim) : Prop :=
  reported answer "status" = some claim.status.value ∧
    reported answer "approved_amount" = claim.approvedAmount.map Amount.str

structure Retells (answers : List Json) (r : ClaimRecords.Record) : Prop where
  history : List.Forall₂ Reports (answers.reverse.filter isChange) r.history
  latest : ∃ answer, answers.head? = some answer ∧ Describes answer r.claim

theorem written_eventType {answer : Json} {e : OutboxEvent} (shown : Shows answer e) :
    written answer "event_type" = some e.eventType := by
  rw [written, shown.names.eventType]

theorem isChange_eq {answer : Json} {e : OutboxEvent} (shown : Shows answer e) :
    isChange answer = ClaimReplay.isChange e := by
  simp only [isChange, ClaimReplay.isChange, written_eventType shown, Option.some.injEq]

theorem reported_eq {answer : Json} {e : OutboxEvent} (shown : Shows answer e) (k : String) :
    reported answer k = said e.payload k := by
  rw [reported, shown.payload, Option.bind_some]

theorem reports_of_shows {answer : Json} {e : OutboxEvent} (shown : Shows answer e)
    {h : ClaimService.ClaimStatusHistory} (reports : ClaimReplay.Reports e h) :
    Reports answer h := by
  unfold ClaimReplay.Reports at reports
  unfold Reports
  rw [written_eventType shown, reported_eq shown, reported_eq shown]
  cases hfrom : h.fromStatus with
  | none =>
    rw [hfrom] at reports
    obtain ⟨hfiled, hto⟩ := reports
    exact ⟨by rw [hfiled], hto⟩
  | some fromStatus =>
    rw [hfrom] at reports
    obtain ⟨hchange, hleft, hreached⟩ := reports
    exact ⟨by rw [hchange], said_of_data hleft, said_of_data hreached⟩

theorem describes_of_shows {answer : Json} {e : OutboxEvent} (shown : Shows answer e)
    {claim : ClaimService.Claim} (describes : ClaimReplay.Describes e claim) :
    Describes answer claim := by
  obtain ⟨hstatus, hamount⟩ := describes
  rw [Describes, reported_eq shown, reported_eq shown]
  refine ⟨said_of_data hstatus, ?_⟩
  cases hc : claim.approvedAmount with
  | some amount =>
    rw [hc] at hamount
    exact said_of_data hamount
  | none =>
    rw [hc] at hamount
    have absent : (e.payload.get? "data").bind (fun data => data.get? "approved_amount") = none :=
      hamount
    simp only [said, absent, Option.map_none]

theorem forall₂_reports {answers : List Json} {es : List OutboxEvent}
    {history : List ClaimService.ClaimStatusHistory} (shown : List.Forall₂ Shows answers es)
    (reports : List.Forall₂ ClaimReplay.Reports es history) :
    List.Forall₂ Reports answers history := by
  induction shown generalizing history with
  | nil =>
    cases reports
    exact .nil
  | cons shown _ ih =>
    cases reports with
    | cons first rest => exact .cons (reports_of_shows shown first) (ih rest)

theorem retells {answers : List Json} {r : ClaimRecords.Record}
    (shown : List.Forall₂ Shows answers.reverse r.events) (replays : ClaimReplay.Replays r) :
    Retells answers r := by
  constructor
  case history =>
    have kept : List.Forall₂ Shows (answers.reverse.filter isChange)
        (r.events.filter ClaimReplay.isChange) :=
      List.rel_filter (p := isChange) (q := ClaimReplay.isChange)
        (fun answer e shown => iff_of_eq (congrArg (· = true) (isChange_eq shown))) shown
    exact forall₂_reports kept replays.told
  case latest =>
    obtain ⟨e, hlast, describes⟩ := replays.latest
    have newest : List.Forall₂ Shows answers r.events.reverse := by
      simpa using List.forall₂_reverse_iff.mpr shown
    rw [← List.head?_reverse] at hlast
    generalize r.events.reverse = es at newest hlast
    cases newest with
    | nil => cases hlast
    | @cons answer first answers es shown rest =>
      cases hlast
      exact ⟨answer, rfl, describes_of_shows shown describes⟩

/-- What holds of a row for its event holds of what is read of the row. -/
theorem forall₂_read {read : AuditEvent → Json} {R : Json → OutboxEvent → Prop}
    (reads : ∀ row e, Tells row e → R (read row) e) {listing : List AuditEvent}
    {es : List OutboxEvent} (tell : List.Forall₂ Tells listing es) :
    List.Forall₂ R (listing.map read) es :=
  List.forall₂_map_left_iff.mpr (tell.imp reads)

/-- Once the pipeline has settled, the list of the audit endpoint for a claim names the
events of its record, each once and no others, and each is shown whole under the identifier
of its item. Where the clock moved on from each of them to the next, the rows so read retell
the claim's history and show the claim as it is. -/
theorem trail_retells_claim {customers : List PolicyService.Customer} {as : List (Action j k)}
    {s : State j k} (hrun : Runs.run (step c) (init customers) as = some s)
    (answers : Runs.Steps (step c) Available (init customers) as) (settled : Settled s)
    {T : Table AuditEvent.id} (stored : T.rows = s.audit.store.rows) {id : UUID}
    {r : ClaimRecords.Record} (hr : ClaimRecords.recordOf s.claims.requests.db id = some r)
    {S : Services} {items : List Json} (lists : Lists S (ofEntity "claim" id) T.rows items) :
    ∃ read, List.Forall₂ (Retrieves S T.rows) items read ∧
      (∃ es, es.Perm r.events ∧ List.Forall₂ Names items es ∧ List.Forall₂ Shows read es) ∧
      (Chronological r.events →
        List.Forall₂ Names items.reverse r.events ∧ Retells read r) := by
  obtain ⟨listing, about, newest, rfl⟩ := lists_ofEntity (by decide) lists
  rw [stored] at about
  obtain ⟨es, perm, tell⟩ := entity_trail hrun answers settled about
  have hevents : eventsOf s.claims.requests.db.outbox id = r.events := by
    obtain ⟨claim, -, rfl⟩ := Option.map_eq_some_iff.mp hr
    rfl
  rw [claim_events hrun, hevents] at perm
  have there : listing ⊆ T.rows := fun row hrow =>
    stored ▸ List.mem_of_mem_filter (about.mem_iff.mp hrow)
  refine ⟨listing.map serialized, retrieves_listed S T there,
    ⟨es, perm, forall₂_read (fun _ _ => names_listed) tell,
      forall₂_read (fun _ _ => shows_serialized) tell⟩, fun ordered => ?_⟩
  -- the rows in the order of the commits
  obtain ⟨rows, rows_tell, rows_perm⟩ :=
    List.perm_comp_forall₂ perm.symm (tell.flip)
  have rows_tell : List.Forall₂ Tells rows r.events := rows_tell.flip
  have same := reverse_eq rows_perm.symm newest (chronological_rows rows_tell ordered)
  have always := ClaimRecords.always_allRecords (fun env _ _ => ClaimReplay.filed_replays env)
    (fun _ _ _ _ h => ClaimReplay.transitioned_replays h)
  have replays : ClaimReplay.Replays r :=
    (always _).last (AuditFigures.claims_part.run hrun) id r hr
  rw [← same] at rows_tell
  refine ⟨?_, retells ?_ replays⟩
  · rw [← List.map_reverse]
    exact forall₂_read (fun _ _ => names_listed) rows_tell
  · rw [← List.map_reverse]
    exact forall₂_read (fun _ _ => shows_serialized) rows_tell

/-! ## A claim taken under review -/

def exampleServices : Services := ⟨.postgresql, fun _ => none⟩

def exampleRow : AuditEvent :=
  AuditFrames.row (.claimFiled exampleClaim) ⟨102⟩ (exampleInstant 10 0) ⟨1002⟩
    (exampleInstant 11 3)

def exampleReviewedRow : AuditEvent :=
  AuditFrames.row (.claimStatusChanged (exampleClaim.transitioned (exampleInstant 11 0)
    exampleReview) .filed .underReview) ⟨201⟩ (exampleInstant 11 0) ⟨1001⟩ (exampleInstant 11 2)

/-- In the order they came in. -/
def exampleTable : Table AuditEvent.id where
  rows := [AuditFrames.row (.policyCreated examplePolicy) ⟨1⟩ (exampleInstant 10 0) ⟨1000⟩
      (exampleInstant 11 2), exampleReviewedRow, exampleRow]
  unique := by decide +kernel

theorem exampleRun_rows :
    (Runs.run (step exampleConfig) (init [PolicyRecords.exampleCustomer]) exampleRun).map
      (fun s => (s.audit.store.rows,
        (ClaimRecords.recordOf s.claims.requests.db ⟨100⟩).map ClaimRecords.Record.events)) =
      some (exampleTable.rows, some [exampleFiled, exampleReviewed]) := by
  rfl

theorem exampleRun_lists : Lists exampleServices (ofEntity "claim" ⟨100⟩) exampleTable.rows
    [listed exampleReviewedRow, listed exampleRow] :=
  ⟨⟨[exampleReviewedRow, exampleRow], false⟩, [exampleReviewedRow, exampleRow], rfl, rfl,
    List.Perm.refl _, by decide +kernel, rfl⟩

theorem exampleRun_chronological : Chronological [exampleFiled, exampleReviewed] := by
  refine List.pairwise_pair.mpr (fun t t' filed reviewed => ?_)
  rw [at_unique filed (rfl : At exampleFiled (exampleInstant 10 0)),
    at_unique reviewed (rfl : At exampleReviewed (exampleInstant 11 0))]
  decide

/-- The list of the claim names its two events, and the rows under their identifiers tell
its two steps. -/
theorem exampleRun_retells : ∃ s r read,
    Runs.run (step exampleConfig) (init [PolicyRecords.exampleCustomer]) exampleRun = some s ∧
      ClaimRecords.recordOf s.claims.requests.db ⟨100⟩ = some r ∧
      List.Forall₂ (Retrieves exampleServices exampleTable.rows)
        [listed exampleReviewedRow, listed exampleRow] read ∧
      List.Forall₂ Names [listed exampleRow, listed exampleReviewedRow] r.events ∧
      Retells read r := by
  obtain ⟨s, hs, hends⟩ := Option.map_eq_some_iff.mp exampleRun_rows
  simp only [Prod.mk.injEq] at hends
  obtain ⟨hrows, hrecord⟩ := hends
  obtain ⟨r, hr, hevents⟩ := Option.map_eq_some_iff.mp hrecord
  have ordered : Chronological r.events := hevents ▸ exampleRun_chronological
  obtain ⟨read, retrieved, -, retold⟩ := trail_retells_claim hs exampleRun_answers
    (exampleRun_settled hs) hrows.symm hr exampleRun_lists
  exact ⟨s, r, read, hs, hr, retrieved, retold ordered⟩

end AuditTrails
