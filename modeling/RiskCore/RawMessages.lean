import RiskCore.AuditConsumer
import RiskCore.JsonRoundTrip
import RiskCore.NotificationConsumer

/-!
# Raw messages and the consumer loop

What comes from Kafka is a key and bytes, or null. Both handlers decode first and
guard the decoding against `JSONDecodeError` and `UnicodeDecodeError` only; then
they take fields out of whatever it gave, outside of any `try`. What is raised
there ends `run()`.
-/

namespace RawMessages

open Values Payloads OutboxRelay JsonText

/-! ## Decoding -/

/-- `int(text)`. -/
def int (text : List Char) : Int :=
  let value := (Parsers.numeral 10 (text.filter Char.isDigit)).getD 0
  if text.head? = some '-' then -value else value

/-- The `json` module of Python: an integer of more than 4300 digits raises, and
`NaN` and the infinities are numbers. What `float` makes of a text, what stands for
a surrogate by itself, and how deep brackets may nest are parameters. -/
def python (float : List Char → Int × Int) (lone : Nat → Char) (depth : Nat) : Dialect where
  number text :=
    if text.all (fun c => c.isDigit || c = '-') then
      if 4300 < (text.filter Char.isDigit).length then none else some (.num (int text) 0)
    else some (.num (float text).1 (float text).2)
  constant text := some (.num (float text).1 (float text).2)
  lone := lone
  depth := depth

/-- `json.loads(value.decode("utf-8"))`. -/
def decode (d : Dialect) : Option ByteArray → Read
  | none => .raised
  | some bytes =>
    match String.fromUTF8? bytes with
    | some text => loads d text.toList
    | none => .malformed

/-- `json.dumps(payload).encode("utf-8")`. -/
def encode (number : Int → Int → List Char) (payload : Json) : ByteArray :=
  (String.ofList (print number payload)).toUTF8

theorem decode_toUTF8 (d : Dialect) (text : String) :
    decode d (some text.toUTF8) = loads d text.toList := by
  have htext : String.fromUTF8? text.toUTF8 = some text := by
    have valid : text.toUTF8.IsValidUTF8 := text.isValidUTF8
    rw [String.fromUTF8?, dif_pos valid]
    rfl
  simp only [decode, htext]

/-- A document without numbers is read back. -/
theorem decode_encode (d : Dialect) (number : Int → Int → List Char) {n : Nat} {payload : Json}
    (h : Plain n payload) (hn : n ≤ d.depth) :
    decode d (some (encode number payload)) = .value payload := by
  rw [encode, decode_toUTF8, String.toList_ofList, loads_print d number h hn]

structure RawMessage where
  topic : String
  key : String
  value : Option ByteArray

section
universe u v w
variable {D : Type u} {P : Type v} {O : Type w}

/-- A handler behind the decoding of its message. -/
def decoding (d : Dialect) (h : Offsets.Handler Message D P O) :
    Offsets.Handler RawMessage D P O where
  start := h.start
  next m p o store :=
    match decode d m.value with
    | .value payload => h.next ⟨m.topic, m.key, payload⟩ p o store
    | .malformed => some (store, .leave)
    | .raised => some (store, .die)

/-! ## Handlers that return -/

/-- Whatever allowed outcomes its calls have, the handler comes to an end, and does
not take the process down. -/
inductive Returns {M : Type} (h : Offsets.Handler M D P O) (allowed : P → O → Prop) (m : M) :
    P → D → Prop where
  | intro {p store} (answered : ∃ o r, allowed p o ∧ h.next m p o store = some r)
      (lives : ∀ o store', allowed p o → h.next m p o store ≠ some (store', .die))
      (goes : ∀ o store' p', allowed p o → h.next m p o store = some (store', .goto p') →
        Returns h allowed m p' store') :
      Returns h allowed m p store

variable {M : Type} {h : Offsets.Handler M D P O} {allowed : P → O → Prop} {m : M} {p : P}
  {store : D}

/-- What may come after a call. -/
def Continues (h : Offsets.Handler M D P O) (allowed : P → O → Prop) (m : M) (store : D) :
    Offsets.Next P → Prop
  | .goto p => Returns h allowed m p store
  | .commit => True
  | .leave => True
  | .die => False

theorem Returns.of_next (answered : ∃ o r, allowed p o ∧ h.next m p o store = some r)
    (each : ∀ o store' next, allowed p o → h.next m p o store = some (store', next) →
      Continues h allowed m store' next) : Returns h allowed m p store := by
  refine .intro answered ?_ ?_
  · intro o store' ho hn
    exact each o store' .die ho hn
  · intro o store' p' ho hn
    exact each o store' (.goto p') ho hn

theorem not_returns {o : O} (ho : allowed p o)
    (dies : ∃ store', h.next m p o store = some (store', .die)) :
    ¬ Returns h allowed m p store := by
  obtain ⟨store', dies⟩ := dies
  intro hr
  cases hr with
  | intro _ lives _ => exact lives o store' ho dies

end

section
universe u v w
variable {D : Type u} {P : Type v} {O : Type w} {d : Dialect} {h : Offsets.Handler Message D P O}
  {allowed : P → O → Prop} {m : RawMessage}

theorem next_decoded {payload : Json} (hd : decode d m.value = .value payload) (p : P) (o : O)
    (store : D) : (decoding d h).next m p o store = h.next ⟨m.topic, m.key, payload⟩ p o store := by
  simp only [decoding, hd]

/-- A message that is decoded is in the hands of the handler. -/
theorem returns_decoded {payload : Json} (hd : decode d m.value = .value payload) {p : P}
    {store : D} : Returns (decoding d h) allowed m p store ↔
      Returns h allowed ⟨m.topic, m.key, payload⟩ p store := by
  constructor
  · intro hr
    induction hr with
    | intro answered lives _ ih =>
      simp only [next_decoded hd] at answered lives ih
      exact .intro answered lives ih
  · intro hr
    induction hr with
    | intro answered lives _ ih =>
      refine .intro ?_ ?_ ?_
      · simpa only [next_decoded hd] using answered
      · simpa only [next_decoded hd] using lives
      · simpa only [next_decoded hd] using ih

theorem returns_malformed (hd : decode d m.value = .malformed) {p : P} {o : O} (ho : allowed p o)
    (store : D) : Returns (decoding d h) allowed m p store := by
  have hnext : ∀ o, (decoding d h).next m p o store = some (store, .leave) := by
    intro o
    simp only [decoding, hd]
  refine .of_next ⟨o, _, ho, hnext o⟩ ?_
  intro o' store' next _ hn
  cases (hnext o').symm.trans hn
  trivial

theorem not_returns_raised (hd : decode d m.value = .raised) {p : P} {o : O} (ho : allowed p o)
    (store : D) : ¬ Returns (decoding d h) allowed m p store := by
  refine not_returns ho ⟨store, ?_⟩
  simp only [decoding, hd]

/-- Where the handler returns on the payloads with `accepts`, the loop survives what
cannot be decoded and those. -/
theorem returns_iff {accepts : Json → Prop} {p : P} {o : O} (ho : allowed p o) {store : D}
    (handles : ∀ payload, Returns h allowed ⟨m.topic, m.key, payload⟩ p store ↔ accepts payload) :
    Returns (decoding d h) allowed m p store ↔
      decode d m.value = .malformed ∨
        ∃ payload, decode d m.value = .value payload ∧ accepts payload := by
  cases hd : decode d m.value with
  | value payload =>
    rw [returns_decoded hd, handles payload]
    simp
  | malformed => exact iff_of_true (returns_malformed hd ho store) (Or.inl rfl)
  | raised => exact iff_of_false (not_returns_raised hd ho store) (by simp)

end

/-! ## audit-service -/

section Audit
open AuditConsumer

/-- The database and Kafka's commit are there, though the database may refuse a row,
say for a text that is too long; the channel layer may be away. -/
def AuditAnswers : Point → Outcome → Prop
  | .commit, .raised => False
  | .commitDuplicate, .raised => False
  | _, _ => True

section
variable {rt : Runtime} {m : Message}

theorem audit_commits {p : Point} (hp : p = .commit ∨ p = .commitDuplicate) (store : Store) :
    Returns (handler rt) AuditAnswers m p store := by
  rcases hp with rfl | rfl
  all_goals
    refine .of_next ⟨.done, _, trivial, rfl⟩ ?_
    intro o store' next ho hn
    cases next_handled hn with
    | _ => trivial

theorem audit_broadcasts (event : AuditEvent) (store : Store) :
    Returns (handler rt) AuditAnswers m (.broadcast event) store := by
  refine .of_next ⟨.done, _, trivial, rfl⟩ ?_
  intro o store' next _ hn
  cases next_handled hn with
  | sent => exact audit_commits (Or.inl rfl) _
  | unsent => trivial

theorem audit_processes {fields : List (String × Json)} (hm : m.value = .obj fields)
    (store : Store) : Returns (handler rt) AuditAnswers m .process store := by
  refine .of_next ⟨.raised, (store, .leave), trivial, by simp only [handler, hm]⟩ ?_
  intro o store' next _ hn
  cases next_handled hn with
  | stored ok => exact audit_broadcasts _ _
  | duplicate taken => exact audit_commits (Or.inr rfl) _
  | noDict other => exact absurd hm (other fields)
  | _ => trivial

/-- `_handle` returns on the objects and on nothing else. -/
theorem returns_audit (store : Store) :
    Returns (handler rt) AuditAnswers m .process store ↔ ∃ fields, m.value = .obj fields := by
  cases hm : m.value with
  | obj fields => exact iff_of_true (audit_processes hm store) ⟨fields, rfl⟩
  | _ =>
    refine iff_of_false (not_returns (o := .raised) trivial ⟨store, ?_⟩) (by simp)
    simp only [handler, hm]

end

end Audit

/-! ## notification-service -/

section Notification
open NotificationConsumer

/-- The database, Celery and Kafka's commit are there, though the database may refuse
a row. -/
def NotificationAnswers : Point → Outcome → Prop
  | .delay _, .raised => False
  | .commitRow _, .raised => False
  | .commit, .raised => False
  | .commitDuplicate, .raised => False
  | _, _ => True

section
variable {rt : Runtime} {defaultFromEmail : String} {m : Message}

theorem notification_commits {p : Point} (hp : p = .commit ∨ p = .commitDuplicate)
    (store : Store) : Returns (handler rt defaultFromEmail) NotificationAnswers m p store := by
  rcases hp with rfl | rfl
  all_goals
    refine .of_next ⟨.done, _, trivial, rfl⟩ ?_
    intro o store' next ho hn
    cases next_handled hn with
    | _ => trivial

theorem notification_inserts (notification : Notification) (store : Store) :
    Returns (handler rt defaultFromEmail) NotificationAnswers m (.commitRow notification)
      store := by
  refine .of_next ⟨.done, _, trivial, rfl⟩ ?_
  intro o store' next ho hn
  cases next_handled hn with
  | inserted => exact notification_commits (Or.inl rfl) _
  | insertFailed => exact absurd ho id

theorem notification_delays (notification : Notification) (store : Store) :
    Returns (handler rt defaultFromEmail) NotificationAnswers m (.delay notification) store := by
  refine .of_next ⟨.done, _, trivial, rfl⟩ ?_
  intro o store' next ho hn
  cases next_handled hn with
  | delayed => exact notification_inserts notification _
  | delayFailed => exact absurd ho id

theorem notification_creates {d : Draft} (hd : draft defaultFromEmail m.value = some d)
    (store : Store) :
    Returns (handler rt defaultFromEmail) NotificationAnswers m .create store := by
  refine .of_next ⟨.raised, (store, .leave), trivial, by simp only [handler, hd]⟩ ?_
  intro o store' next _ hn
  cases next_handled hn with
  | inserting drafted ok => exact notification_delays _ _
  | duplicate drafted taken => exact notification_commits (Or.inr rfl) _
  | raised drafted => trivial
  | undrafted none =>
    rw [hd] at none
    cases none

/-- What the code before the `try` takes for granted: an object, whose `event_type`
is a string, if it is there, and whose `data` is an object, if it is there. -/
def Draftable (payload : Json) : Prop :=
  ∃ fields, payload = .obj fields ∧
    (∃ eventType, (fields.lookup "event_type").getD (.str "") = .str eventType) ∧
      ∃ data, (fields.lookup "data").getD (.obj []) = .obj data

variable (defaultFromEmail) in
theorem draft_isSome {payload : Json} :
    (∃ d, draft defaultFromEmail payload = some d) ↔ Draftable payload := by
  constructor
  · rintro ⟨d, hd⟩
    simp only [draft, Option.bind_eq_bind, Option.bind_eq_some_iff] at hd
    obtain ⟨eventType, htype, eventId, _, data, hdata, hd⟩ := hd
    cases payload with
    | obj fields =>
      cases eventType with
      | str eventType =>
        simp only [Option.bind_eq_some_iff] at hd
        obtain ⟨recipient, hrecipient, _⟩ := hd
        cases data with
        | obj data => exact ⟨fields, rfl, ⟨eventType, Option.some.inj htype⟩, data,
            Option.some.inj hdata⟩
        | _ =>
          unfold extractRecipient at hrecipient
          split at hrecipient <;> cases hrecipient
      | _ => cases hd
    | _ => cases htype
  · rintro ⟨fields, rfl, ⟨eventType, htype⟩, data, hdata⟩
    obtain ⟨recipient, hrecipient⟩ := extractRecipient_obj defaultFromEmail eventType data
    obtain ⟨context, hcontext⟩ := buildContext_obj eventType data
    simp only [draft, Payloads.get, htype, hdata, Option.bind_eq_bind, Option.bind_some,
      hrecipient, hcontext]
    exact ⟨_, rfl⟩

/-- `_handle_message` returns on what can be drafted and on nothing else. -/
theorem returns_notification (store : Store) :
    Returns (handler rt defaultFromEmail) NotificationAnswers m .create store ↔
      Draftable m.value := by
  rw [← draft_isSome defaultFromEmail]
  cases hd : draft defaultFromEmail m.value with
  | some d => exact iff_of_true (notification_creates hd store) ⟨d, rfl⟩
  | none =>
    refine iff_of_false (not_returns (o := .raised) trivial ⟨store, ?_⟩) (by simp)
    simp only [handler, hd]

end

end Notification

/-- For every message, with any bytes or null: while the database, Celery and Kafka's
commit are there, both handlers return iff the bytes cannot be decoded in one of the
two ways that are guarded, or hold what the unguarded code takes for granted. -/
theorem returns_iff_readable (float : List Char → Int × Int) (lone : Nat → Char) (depth : Nat)
    (rt : Runtime) (defaultFromEmail : String) (auditStore : AuditConsumer.Store)
    (notificationStore : NotificationConsumer.Store) (m : RawMessage) :
    (Returns (decoding (python float lone depth) (AuditConsumer.handler rt)) AuditAnswers m
        .process auditStore ↔
      decode (python float lone depth) m.value = .malformed ∨
        ∃ fields, decode (python float lone depth) m.value = .value (.obj fields)) ∧
    (Returns (decoding (python float lone depth)
        (NotificationConsumer.handler rt defaultFromEmail)) NotificationAnswers m .create
        notificationStore ↔
      decode (python float lone depth) m.value = .malformed ∨
        ∃ payload, decode (python float lone depth) m.value = .value payload ∧
          Draftable payload) := by
  constructor
  · have handles : ∀ payload, Returns (AuditConsumer.handler rt) AuditAnswers
        ⟨m.topic, m.key, payload⟩ .process auditStore ↔ ∃ fields, payload = .obj fields :=
      fun payload => returns_audit auditStore
    have hreturns := returns_iff (d := python float lone depth) (m := m)
      (o := AuditConsumer.Outcome.raised) trivial handles
    rw [hreturns]
    constructor
    · rintro (hd | ⟨payload, hd, fields, hobj⟩)
      · exact Or.inl hd
      · exact Or.inr ⟨fields, hobj ▸ hd⟩
    · rintro (hd | ⟨fields, hd⟩)
      · exact Or.inl hd
      · exact Or.inr ⟨.obj fields, hd, fields, rfl⟩
  · exact returns_iff (o := NotificationConsumer.Outcome.raised) trivial
      (fun payload => returns_notification notificationStore)

/-- A dialect for the examples. -/
def exampleDialect : Dialect := python (fun _ => (0, 0)) (fun _ => '\ufffd') 1000

def exampleRaw (value : Option Json) : RawMessage :=
  ⟨"policy.created", "", value.map (encode (fun _ _ => []))⟩

/-- Null, an array, and an object whose `event_type` is null. -/
theorem exampleRaw_not_returned :
    (∀ value ∈ [none, some (.arr [])],
      ¬ Returns (decoding exampleDialect (AuditConsumer.handler Parsers.runtime)) AuditAnswers
          (exampleRaw value) .process ⟨[], []⟩ ∧
      ¬ Returns (decoding exampleDialect (NotificationConsumer.handler Parsers.runtime
          "noreply@riskcore.com")) NotificationAnswers (exampleRaw value) .create ⟨[], []⟩) ∧
    ¬ Returns (decoding exampleDialect (NotificationConsumer.handler Parsers.runtime
        "noreply@riskcore.com")) NotificationAnswers
        (exampleRaw (some (.obj [("event_type", .null)]))) .create ⟨[], []⟩ := by
  have array : decode exampleDialect (exampleRaw (some (.arr []))).value = .value (.arr []) :=
    decode_encode exampleDialect _ (.arr (n := 0) (by simp)) (by decide)
  have untyped : decode exampleDialect (exampleRaw (some (.obj [("event_type", .null)]))).value =
      .value (.obj [("event_type", .null)]) :=
    decode_encode exampleDialect _ (.obj (n := 0) (by simp) (by simp [Plain.null])) (by decide)
  refine ⟨?_, ?_⟩
  · intro value hvalue
    simp only [List.mem_cons, List.not_mem_nil, or_false] at hvalue
    rcases hvalue with rfl | rfl
    · exact ⟨not_returns_raised rfl (o := .raised) trivial _,
        not_returns_raised rfl (o := .raised) trivial _⟩
    · rw [returns_decoded array, returns_decoded array]
      exact ⟨not_returns (o := .raised) trivial ⟨_, rfl⟩,
        not_returns (o := .raised) trivial ⟨_, rfl⟩⟩
  · rw [returns_decoded untyped]
    exact not_returns (o := .raised) trivial ⟨_, rfl⟩

end RawMessages
