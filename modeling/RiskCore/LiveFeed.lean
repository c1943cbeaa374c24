import RiskCore.ConsumerOffsets
import RiskCore.Duplicates
import RiskCore.SocketTokens

/-!
# From the audit log to the page

The audit consumer broadcasts the events it stores to the `audit_events` group; the
channels of the group queue them, or drop them when they are full; a page's sockets
get the frames, and its store keeps the newest five hundred. Other pages have
channels of their own and are left out. Whatever is redelivered, dropped or closed,
the page shows a part of the audit log, in its order and each event at most once,
and only for a token that was valid.
-/

namespace LiveFeed

open Values Events AuditConsumer
open AuditFrames (serialized frame row)
open EventStream (Page socketUrl)
open SocketTokens (Entry.url? Entry.message? sentQuery userId)

/-- `validate` is `_validate_jwt`, `number` how Python prints numbers. -/
structure Config where
  page : Page
  validate : String → Option String
  number : Int → Int → List Char
  str : Json → String

/-- A channel in the group, with the URL of its handshake. -/
structure Channel where
  url : String
  queue : List AuditEvent

/-- `MAX_EVENTS`. -/
def maxEvents : Nat := 500

/-- `push`. -/
def push (events : List Json) (event : Json) : List Json :=
  if events.length ≥ maxEvents then event :: events.take (maxEvents - 1) else event :: events

/-- `channels` are those of the page's sockets, by handle, and `pending` the handshakes
not yet answered. `cleared` is how many messages the page had been given when its
store was last cleared. -/
structure State where
  audit : Deliveries.State Relayed Store Point
  pending : List (Nat × String)
  channels : Nat → Option Channel
  page : EventStream.State
  events : List Json
  cleared : Nat

/-- `kept` are the channels that are not full. `deliver` hands the first frame of a
channel to its socket, and `lose` lets it go with the connection. -/
inductive Action where
  | audit (a : Deliveries.Action Relayed Outcome) (kept : Nat → Bool)
  | answer (i : Nat)
  | deliver (id : Nat)
  | lose (id : Nat)
  | disconnect (id : Nat)
  | page (a : EventStream.Action)
  | clear

def init : State where
  audit := Deliveries.init ⟨[], []⟩
  pending := []
  channels _ := none
  page := EventStream.init
  events := []
  cleared := 0

/-- `group_send`, for every event sent. -/
def broadcast (kept : Nat → Bool) (sent : List AuditEvent) (channels : Nat → Option Channel) :
    Nat → Option Channel :=
  fun id => (channels id).map (fun ch =>
    if kept id then { ch with queue := ch.queue ++ sent } else ch)

/-- The messages the page was given. -/
def State.pushed (s : State) : List Json := s.page.record.filterMap Entry.message?

/-- The page's client has gone on: its new socket asks for a handshake, and what it was
given is pushed. -/
def State.moved (s : State) (t : EventStream.State) : State :=
  let new := t.record.drop s.page.record.length
  { s with
    pending := s.pending ++ (new.filterMap Entry.url?).map (fun url => (s.page.next, url))
    page := t
    events := (new.filterMap Entry.message?).foldl push s.events }

section
variable (c : Config)

/-- `AuditEventsConsumer.connect`. -/
def connect (url : String) : Option Channel :=
  (userId c.validate (sentQuery url)).map (fun _ => ⟨url, []⟩)

def step (s : State) : Action → Option State
  | .audit a kept =>
    (Deliveries.step (ConsumerOffsets.audit (AuditFrames.runtime c.str)) s.audit a).map (fun t =>
      { s with
        audit := t
        channels := broadcast kept (t.store.sent.drop s.audit.store.sent.length) s.channels })
  | .answer i =>
    match s.pending[i]? with
    | some (id, url) => some { s with
        pending := s.pending.eraseIdx i
        channels := Function.update s.channels id (connect c url) }
    | none => none
  | .deliver id =>
    match s.channels id with
    | some ⟨url, event :: queue⟩ =>
      (EventStream.step c.page s.page (.message id (frame c.number event))).map (fun t =>
        { s.moved t with channels := Function.update s.channels id (some ⟨url, queue⟩) })
    | _ => none
  | .lose id =>
    match s.channels id with
    | some ⟨url, _ :: queue⟩ =>
      some { s with channels := Function.update s.channels id (some ⟨url, queue⟩) }
    | _ => none
  | .disconnect id => some { s with channels := Function.update s.channels id none }
  | .page (.message _ _) => none
  | .page a => (EventStream.step c.page s.page a).map s.moved
  | .clear => some { s with events := [], cleared := s.pushed.length }

/-- What one step can do, case by case. -/
inductive Step (s : State) : Action → State → Prop where
  | audit {a kept t} (moved : Deliveries.step
      (ConsumerOffsets.audit (AuditFrames.runtime c.str)) s.audit a = some t) :
      Step s (.audit a kept) { s with
        audit := t
        channels := broadcast kept (t.store.sent.drop s.audit.store.sent.length) s.channels }
  | answer {i id url} (waiting : (id, url) ∈ s.pending) :
      Step s (.answer i) { s with
        pending := s.pending.eraseIdx i
        channels := Function.update s.channels id (connect c url) }
  | deliver {id url event queue t} (first : s.channels id = some ⟨url, event :: queue⟩)
      (moved : EventStream.step c.page s.page (.message id (frame c.number event)) = some t) :
      Step s (.deliver id)
        { s.moved t with channels := Function.update s.channels id (some ⟨url, queue⟩) }
  | lose {id url event queue} (first : s.channels id = some ⟨url, event :: queue⟩) :
      Step s (.lose id) { s with channels := Function.update s.channels id (some ⟨url, queue⟩) }
  | disconnect {id} :
      Step s (.disconnect id) { s with channels := Function.update s.channels id none }
  | page {a t} (own : ∀ id data, a ≠ .message id data)
      (moved : EventStream.step c.page s.page a = some t) : Step s (.page a) (s.moved t)
  | clear : Step s .clear { s with events := [], cleared := s.pushed.length }

end

variable {c : Config}

theorem step_sound {s t : State} {a : Action} (h : step c s a = some t) : Step c s a t := by
  cases a with
  | audit a kept =>
    obtain ⟨r, hr, rfl⟩ := Option.map_eq_some_iff.mp h
    exact .audit hr
  | answer i =>
    simp only [step] at h
    split at h
    · rename_i id url waiting
      cases h
      exact .answer (List.mem_of_getElem? waiting)
    · cases h
  | deliver id =>
    simp only [step] at h
    split at h
    · rename_i url event queue first
      obtain ⟨r, hr, rfl⟩ := Option.map_eq_some_iff.mp h
      exact .deliver first hr
    · cases h
  | lose id =>
    simp only [step] at h
    split at h
    · rename_i url event queue first
      cases h
      exact .lose first
    · cases h
  | disconnect id =>
    cases h
    exact .disconnect
  | page a =>
    cases a with
    | message id data => cases h
    | _ =>
      obtain ⟨r, hr, rfl⟩ := Option.map_eq_some_iff.mp h
      exact .page (by simp) hr
  | clear =>
    cases h
    exact .clear

/-! ## The store of the page -/

theorem push_take (events : List Json) (event : Json) :
    push (events.take maxEvents) event = (event :: events).take maxEvents := by
  rw [push, List.length_take, List.take_take]
  split
  · rfl
  · rename_i short
    have few : events.length < maxEvents := by
      simp only [maxEvents] at short ⊢
      omega
    rw [List.take_of_length_le (Nat.le_of_lt few), List.take_of_length_le]
    exact few

theorem foldl_push (given events : List Json) :
    given.foldl push (events.take maxEvents) = (given.reverse ++ events).take maxEvents := by
  induction given generalizing events with
  | nil => rfl
  | cons event given ih =>
    rw [List.foldl_cons, push_take, ih, List.reverse_cons, List.append_assoc]
    rfl

/-! ## The audit log -/

/-- The row of an event a builder made. -/
def IsRow (event : AuditEvent) : Prop :=
  ∃ b eventId occurredAt id receivedAt, event = row b eventId occurredAt id receivedAt

/-- The page reads the frame of a row as the row. -/
theorem given_frame (c : Config) {event : AuditEvent} (h : IsRow event) :
    SocketTokens.given c.page (frame c.number event) = some (serialized event) := by
  obtain ⟨b, eventId, occurredAt, id, receivedAt, rfl⟩ := h
  obtain ⟨data, hpayload⟩ := b.payload_eq
  have plain : JsonText.Plain 2 (row b eventId occurredAt id receivedAt).payload :=
    AuditFrames.plain_payload b eventId occurredAt
  have hread := AuditFrames.parse_frame c.number c.page.number c.page.lone plain
  have same : (row b eventId occurredAt id receivedAt).eventId = eventId.str := rfl
  have accepted := AuditFrames.safeParse_serialized same (hpayload eventId occurredAt)
  rw [SocketTokens.given, hread]
  simp only [serialized] at accepted ⊢
  rw [EventStream.parsedMessage, if_pos accepted]
  simp [AuditFrames.kafkaEventMessageSchema, List.lookup_cons]

theorem stored_isRow {str : Json → String} (m : Relayed) {rows : List AuditEvent} {id : UUID}
    {now receivedAt : DateTime} {event : AuditEvent}
    (ok : processEvent (AuditFrames.runtime str) rows m.message.value m.message.topic id now
      receivedAt = .ok event) : IsRow event := by
  obtain ⟨b, eventId, occurredAt, htopic, hvalue⟩ := m.built.exists_build
  rw [htopic, hvalue] at ok
  cases hf : Tables.find AuditEvent.eventId rows eventId.str with
  | none =>
    rw [AuditFrames.processEvent_build str b eventId occurredAt hf] at ok
    cases ok
    exact ⟨b, eventId, occurredAt, id, receivedAt, rfl⟩
  | some found =>
    obtain ⟨data, hpayload⟩ := b.payload_eq
    have about := Redelivery.extractEntity_build (AuditFrames.runtime str) b eventId occurredAt
    rw [hpayload] at about ok
    rw [Redelivery.processEvent_about (AuditFrames.runtime_faithful str) about, hf] at ok
    cases ok

/-- What the consumer has sent is a part of its table, with what it is about to send. -/
structure Logged (s : Deliveries.State Relayed Store Point) : Prop where
  rows : ∀ event ∈ s.store.rows, IsRow event
  distinct : (s.store.rows.map AuditEvent.eventId).Nodup
  sent : s.store.sent.Sublist s.store.rows
  underway : ∀ m event, s.current = some (m, .broadcast event) →
    (s.store.sent ++ [event]).Sublist s.store.rows

theorem logged_init : Logged (Deliveries.init ⟨[], []⟩) where
  rows := by simp [Deliveries.init]
  distinct := List.nodup_nil
  sent := List.Sublist.refl _
  underway := by simp [Deliveries.init]

theorem logged_step {str : Json → String} {s t : Deliveries.State Relayed Store Point}
    {a : Deliveries.Action Relayed Outcome} (h : Logged s)
    (hst : Deliveries.step (ConsumerOffsets.audit (AuditFrames.runtime str)) s a = some t) :
    Logged t ∧ s.store.sent <+: t.store.sent := by
  cases a with
  | deliver m =>
    simp only [Deliveries.step] at hst
    split at hst
    · cases hst
      refine ⟨⟨h.rows, h.distinct, h.sent, ?_⟩, List.prefix_refl _⟩
      intro m' event he
      cases he
    · cases hst
  | crash =>
    cases hst
    exact ⟨⟨h.rows, h.distinct, h.sent, by simp⟩, List.prefix_refl _⟩
  | call o =>
    simp only [Deliveries.step] at hst
    split at hst
    · cases hst
    · rename_i m p busy
      obtain ⟨⟨store, next⟩, hnext, rfl⟩ := Option.map_eq_some_iff.mp hst
      cases next_handled hnext with
      | @stored id now receivedAt event ok =>
        have new := Duplicates.processEvent_key (AuditFrames.runtime str) s.store.rows m.message id
          now receivedAt
        rw [ok] at new
        refine ⟨⟨?_, ?_, ?_, ?_⟩, List.prefix_refl _⟩
        · exact List.forall_mem_append.mpr
            ⟨h.rows, List.forall_mem_singleton.mpr (stored_isRow m ok)⟩
        · exact Tables.insert_nodup h.distinct (Tables.find_eq_none.mpr new.2)
        · exact h.sent.trans (List.sublist_append_left _ _)
        · intro m' event' he
          cases he
          exact h.sent.append (List.Sublist.refl _)
      | @sent event =>
        refine ⟨⟨h.rows, h.distinct, h.underway m event busy, ?_⟩, List.prefix_append _ _⟩
        intro m' event' he
        cases he
      | _ =>
        refine ⟨⟨h.rows, h.distinct, h.sent, ?_⟩, List.prefix_refl _⟩
        intro m' event' he
        cases he

/-! ## What is shown -/

/-- The frames on their way to a socket. -/
def queueOf (channels : Nat → Option Channel) (id : Nat) : List AuditEvent :=
  ((channels id).map Channel.queue).getD []

/-- `shown` are the rows the page was given. -/
structure Shown (s : State) (shown : List AuditEvent) : Prop where
  pushed : s.pushed = shown.map serialized
  sent : shown.Sublist s.audit.store.sent
  coming : ∀ id, s.page.listens id = true →
    (shown ++ queueOf s.channels id).Sublist s.audit.store.sent

/-- The URL is of a socket for a valid token. -/
def Valid (c : Config) (url : String) : Prop :=
  ∃ token, url = socketUrl c.page token ∧ (c.validate token).isSome

structure Inv (c : Config) (s : State) : Prop where
  phase : EventStream.Phase s.page
  logged : Logged s.audit
  pending : ∀ p ∈ s.pending, p.1 < s.page.next ∧
    ∃ token, token ≠ "" ∧ p.2 = socketUrl c.page token
  fresh : ∀ id, s.page.next ≤ id → s.channels id = none
  admitted : ∀ id ch, s.channels id = some ch → Valid c ch.url
  shown : ∃ shown, Shown s shown
  events : s.events = ((s.pushed.drop s.cleared).reverse).take maxEvents
  cleared : s.cleared ≤ s.pushed.length

theorem inv_init : Inv c init where
  phase := EventStream.phase_init
  logged := logged_init
  pending := by simp [init]
  fresh := fun _ _ => rfl
  admitted := by simp [init]
  shown := ⟨[], rfl, List.Sublist.refl _, fun _ _ => List.Sublist.refl _⟩
  events := rfl
  cleared := Nat.le_refl _

/-- Only one socket of the page can be given a frame. -/
theorem listens_unique {s : EventStream.State} (phase : EventStream.Phase s) {n m : Nat}
    (hn : s.listens n = true) (hm : s.listens m = true) : n = m := by
  simp only [EventStream.State.listens, List.any_eq_true, Bool.and_eq_true, decide_eq_true_eq,
    Bool.not_eq_true'] at hn hm
  obtain ⟨x, hx, rfl, openX⟩ := hn
  obtain ⟨y, hy, rfl, openY⟩ := hm
  cases phase with
  | fresh alive unconnected idle => simp [idle.sockets] at hx
  | running alive connected activity =>
    cases activity with
    | fetch fetches sockets timers => simp [sockets] at hx
    | timer timer fetches sockets timers current => simp [sockets] at hx
    | socket socket fetches sockets timers current =>
      rw [sockets, List.mem_singleton] at hx hy
      rw [hx, hy]
  | gone destroyed gone =>
    rw [gone.closing x hx] at openX
    cases openX

/-- What the page's client does with it. -/
theorem pushed_moved {s : State} {t : EventStream.State} {a : EventStream.Action}
    {new : List EventStream.Entry} (adds : SocketTokens.Adds c.page s.page t a new) :
    (s.moved t).pushed = s.pushed ++ SocketTokens.givenBy c.page a := by
  rw [State.pushed, State.moved, adds.record, List.filterMap_append, adds.messages]
  rfl

theorem events_moved {s : State} (h : Inv c s) {t : EventStream.State} {a : EventStream.Action}
    {new : List EventStream.Entry} (adds : SocketTokens.Adds c.page s.page t a new) :
    (s.moved t).events = (((s.moved t).pushed.drop s.cleared).reverse).take maxEvents := by
  have hdrop : t.record.drop s.page.record.length = new := by
    rw [adds.record, List.drop_left]
  rw [pushed_moved adds, List.drop_append_of_le_length h.cleared, List.reverse_append, ← foldl_push,
    ← h.events, State.moved, hdrop, adds.messages]

/-- A step of the client, with the rows it is given. -/
theorem inv_moved {s : State} (h : Inv c s) {t : EventStream.State} {a : EventStream.Action}
    (moved : EventStream.step c.page s.page a = some t) {channels : Nat → Option Channel}
    (fresh : ∀ id, s.page.next ≤ id → channels id = none)
    (admitted : ∀ id ch, channels id = some ch → Valid c ch.url)
    (shown : ∃ shown, Shown { s.moved t with channels := channels } shown) :
    Inv c { s.moved t with channels := channels } := by
  obtain ⟨new, adds⟩ := SocketTokens.adds_step moved
  have hdrop : t.record.drop s.page.record.length = new := by
    rw [adds.record, List.drop_left]
  constructor
  case phase => exact EventStream.phase_step c.page _ _ _ h.phase moved
  case logged => exact h.logged
  case pending =>
    intro p hp
    rcases List.mem_append.mp hp with hp | hp
    · obtain ⟨hlt, hurl⟩ := h.pending p hp
      exact ⟨Nat.lt_of_lt_of_le hlt adds.next, hurl⟩
    · obtain ⟨url, hurl, rfl⟩ := List.mem_map.mp hp
      rw [hdrop] at hurl
      obtain ⟨hnext, reply, token, -, -, present, heq⟩ := adds.urls url hurl
      exact ⟨hnext ▸ Nat.lt_succ_self s.page.next, token, present, heq⟩
  case fresh => exact fun id hid => fresh id (Nat.le_trans adds.next hid)
  case admitted => exact admitted
  case shown => exact shown
  case events => exact events_moved h adds
  case cleared =>
    refine Nat.le_trans h.cleared ?_
    have := congrArg List.length (pushed_moved adds)
    rw [List.length_append] at this
    exact this ▸ Nat.le_add_right _ _

theorem queueOf_update (channels : Nat → Option Channel) (id : Nat) (ch : Option Channel)
    (n : Nat) :
    queueOf (Function.update channels id ch) n =
      if n = id then (ch.map Channel.queue).getD [] else queueOf channels n := by
  by_cases hn : n = id
  · subst hn
    simp [queueOf]
  · simp [queueOf, hn]

theorem queueOf_fresh {s : State} (h : Inv c s) : queueOf s.channels s.page.next = [] := by
  rw [queueOf, h.fresh _ (Nat.le_refl _)]
  rfl

theorem queueOf_some {channels : Nat → Option Channel} {id : Nat} {ch : Channel}
    (h : channels id = some ch) : queueOf channels id = ch.queue := by
  rw [queueOf, h]
  rfl

/-- A channel in the group belongs to an old handle. -/
theorem Inv.old {s : State} (h : Inv c s) {id : Nat} {ch : Channel}
    (hch : s.channels id = some ch) : id < s.page.next := by
  by_contra hle
  rw [h.fresh id (Nat.not_lt.mp hle)] at hch
  cases hch

/-- A channel that changes hands keeps what is shown, if its queue does not grow. -/
theorem Inv.update {s : State} (h : Inv c s) {id : Nat} {ch : Option Channel}
    (valid : ∀ new, ch = some new → id < s.page.next ∧ Valid c new.url)
    (shorter : ((ch.map Channel.queue).getD []).Sublist (queueOf s.channels id))
    {pending : List (Nat × String)} (waiting : pending ⊆ s.pending) :
    Inv c { s with pending := pending, channels := Function.update s.channels id ch } := by
  obtain ⟨shown, hshown⟩ := h.shown
  refine ⟨h.phase, h.logged, fun p hp => h.pending p (waiting hp), fun n hn => ?_,
    fun n new hnew => ?_, ⟨shown, hshown.pushed, hshown.sent, fun n hn => ?_⟩, h.events, h.cleared⟩
  · by_cases hne : n = id
    · subst hne
      simp only [Function.update_self]
      exact Option.eq_none_iff_forall_ne_some.mpr
        (fun new hnew => absurd (valid new hnew).1 (Nat.not_lt.mpr hn))
    · exact (Function.update_of_ne hne _ _).trans (h.fresh n hn)
  · by_cases hne : n = id
    · subst hne
      exact (valid new (by simpa using hnew)).2
    · exact h.admitted n new (by simpa [Function.update_of_ne hne] using hnew)
  · refine List.Sublist.trans (List.Sublist.append_left ?_ shown) (hshown.coming n hn)
    rw [queueOf_update]
    split
    · rename_i hn
      exact hn ▸ shorter
    · exact List.Sublist.refl _

theorem inv_step (plainUrl : ∀ ch ∈ c.page.wsUrl.toList, ch ≠ '?' ∧ ch ≠ '#') :
    Runs.Inductive (step c) (Inv c) := by
  intro s a t h hst
  obtain ⟨shown, hshown⟩ := h.shown
  cases step_sound hst with
  | @audit a kept r moved =>
    obtain ⟨logged, new, hnew⟩ := logged_step h.logged moved
    have hdrop : r.store.sent.drop s.audit.store.sent.length = new := by
      rw [← hnew, List.drop_left]
    refine ⟨h.phase, logged, h.pending, fun n hn => ?_, fun n ch hch => ?_,
      ⟨shown, hshown.pushed, ?_, fun n hn => ?_⟩, h.events, h.cleared⟩
    · simp [broadcast, h.fresh n hn]
    · obtain ⟨old, hold, rfl⟩ := Option.map_eq_some_iff.mp hch
      have := h.admitted n old hold
      split <;> exact this
    · exact hshown.sent.trans (hnew ▸ List.sublist_append_left _ _)
    · have coming := hshown.coming n hn
      rw [hdrop]
      simp only [queueOf, broadcast] at coming ⊢
      rw [← hnew]
      cases hch : s.channels n with
      | none =>
        rw [hch] at coming
        exact coming.trans (List.sublist_append_left _ _)
      | some ch =>
        rw [hch] at coming
        simp only [Option.map_some, Option.getD_some] at coming ⊢
        split
        · rw [← List.append_assoc]
          exact coming.append (List.Sublist.refl new)
        · exact coming.trans (List.sublist_append_left _ _)
  | @answer i id url waiting =>
    obtain ⟨old, token, present, hurl⟩ := h.pending (id, url) waiting
    refine h.update (fun new hnew => ?_) ?_ List.eraseIdx_subset
    · obtain ⟨user, huser, rfl⟩ := Option.map_eq_some_iff.mp hnew
      refine ⟨old, token, hurl, ?_⟩
      have hurl : url = socketUrl c.page token := hurl
      rw [hurl, userId, SocketTokens.token_arrives c.page plainUrl present] at huser
      simp only [if_neg present] at huser
      rw [huser]
      rfl
    · rw [connect, Option.map_map]
      cases userId c.validate (sentQuery url) <;> exact List.nil_sublist _
  | @deliver id url event queue r first moved =>
    obtain ⟨new, adds⟩ := SocketTokens.adds_step moved
    have listens : s.page.listens id = true := by
      cases EventStream.step_sound moved with
      | message listens => exact listens
    have coming := hshown.coming id listens
    rw [queueOf_some first, List.append_cons] at coming
    have isRow : IsRow event := h.logged.rows event (h.logged.sent.subset (coming.subset (by simp)))
    have valid : Valid c url := h.admitted id _ first
    refine inv_moved h moved (fun n hn => ?_) (fun n ch hch => ?_)
      ⟨shown ++ [event], ?_, ?_, fun n hn => ?_⟩
    · have hne : n ≠ id := Nat.ne_of_gt (Nat.lt_of_lt_of_le (h.old first) hn)
      exact (Function.update_of_ne hne _ _).trans (h.fresh n hn)
    · by_cases hne : n = id
      · subst hne
        rw [Function.update_self] at hch
        cases hch
        exact valid
      · rw [Function.update_of_ne hne] at hch
        exact h.admitted n ch hch
    · refine (pushed_moved adds).trans ?_
      rw [SocketTokens.givenBy, given_frame c isRow, hshown.pushed, List.map_append]
      rfl
    · exact (List.sublist_append_left _ _).trans coming
    · rw [queueOf_update]
      split
      · exact coming
      · rename_i other
        rcases adds.listens n hn with before | rfl
        · exact absurd (listens_unique h.phase before listens) other
        · rw [queueOf_fresh h, List.append_nil]
          exact (List.sublist_append_left _ _).trans coming
  | @lose id url event queue first =>
    have valid : Valid c url := h.admitted id _ first
    refine h.update (fun new hnew => ?_) ?_ (List.Subset.refl _)
    · cases hnew
      exact ⟨h.old first, valid⟩
    · rw [queueOf_some first]
      exact List.sublist_cons_self _ _
  | @disconnect id =>
    have gone : (((none : Option Channel).map Channel.queue).getD []).Sublist
        (queueOf s.channels id) := List.nil_sublist _
    exact h.update (fun new hnew => by cases hnew) gone (List.Subset.refl _)
  | @page a r own moved =>
    obtain ⟨new, adds⟩ := SocketTokens.adds_step moved
    refine inv_moved h moved h.fresh h.admitted ⟨shown, ?_, hshown.sent, fun n hn => ?_⟩
    · refine (pushed_moved adds).trans ?_
      have hnone : SocketTokens.givenBy c.page a = [] := by
        cases a with
        | message id data => exact absurd rfl (own id data)
        | _ => rfl
      rw [hnone, List.append_nil]
      exact hshown.pushed
    · rcases adds.listens n hn with before | rfl
      · exact hshown.coming n before
      · have quiet := queueOf_fresh h
        simp only [State.moved, quiet, List.append_nil]
        exact hshown.sent
  | clear =>
    refine ⟨h.phase, h.logged, h.pending, h.fresh, h.admitted,
      ⟨shown, hshown.pushed, hshown.sent, hshown.coming⟩, ?_, Nat.le_refl _⟩
    simp [State.pushed]

/-- In every run, whatever is redelivered, dropped, lost, closed and opened again: the
page has been given rows of the audit log, in its order and no event twice, its store
shows the newest of those since it was cleared, and every channel in the group is for a
socket opened with a valid token. -/
theorem feed_follows_audit_log (plainUrl : ∀ ch ∈ c.page.wsUrl.toList, ch ≠ '?' ∧ ch ≠ '#')
    (as : List Action) (s : State) (hrun : Runs.run (step c) init as = some s) :
    (∃ shown : List AuditEvent, shown.Sublist s.audit.store.rows ∧
      (shown.map AuditEvent.eventId).Nodup ∧
      s.pushed = shown.map serialized ∧
      s.events = (((shown.drop s.cleared).map serialized).reverse).take maxEvents) ∧
    ∀ id ch, s.channels id = some ch → Valid c ch.url := by
  have inv := (inv_step plainUrl).run inv_init hrun
  obtain ⟨shown, hshown⟩ := inv.shown
  have hsub := hshown.sent.trans inv.logged.sent
  refine ⟨⟨shown, hsub, inv.logged.distinct.sublist (hsub.map _), hshown.pushed, ?_⟩, inv.admitted⟩
  rw [inv.events, hshown.pushed, List.map_drop]

def exampleConfig : Config := ⟨EventStream.examplePage, some, fun _ _ => [], fun _ => ""⟩

/-- The audit consumer is handed an event, stores it and goes on with the outcomes. -/
def exampleHandled (i : Nat) (kept : Nat → Bool) (rest : List (Deliveries.Action Relayed Outcome)) :
    List Action :=
  .audit (.deliver (ConsumerOffsets.exampleCreated i)) kept ::
    .audit (.call (.created ⟨BitVec.ofNat 128 (1000 + i)⟩ (exampleInstant 10 i)
      (exampleInstant 10 i))) kept :: rest.map (fun a => .audit a kept)

/-- Of five events the page gets the first and the last: the second is stored but never
broadcast, as the consumer goes down and takes it for a duplicate afterwards, the third is
dropped by a full channel, and the fourth is lost with the connection. -/
def exampleRun : List Action :=
  [.page .connect, .page (.fetched (.answered true (some "a+b/c="))), .answer 0,
    .page (.opened 0)] ++
    exampleHandled 0 (fun _ => true) [.call .done, .call .done] ++ [.deliver 0] ++
    exampleHandled 10 (fun _ => true) [.crash] ++
    exampleHandled 10 (fun _ => true) [.call .done] ++
    exampleHandled 20 (fun _ => false) [.call .done, .call .done] ++
    exampleHandled 30 (fun _ => true) [.call .done, .call .done] ++
    [.lose 0, .disconnect 0, .page (.closed 0), .page (.fired 1),
      .page (.fetched (.answered true (some "a+b/c="))), .answer 0, .page (.opened 2)] ++
    exampleHandled 40 (fun _ => true) [.call .done, .call .done] ++ [.deliver 2]

theorem exampleRun_shown :
    (Runs.run (step exampleConfig) init exampleRun).map
      (fun s => (s.audit.store.rows.length, s.pushed.length, s.events.length)) =
    some (5, 2, 2) := by
  decide +kernel

theorem exampleRun_follows : ∃ s, Runs.run (step exampleConfig) init exampleRun = some s ∧
    s.audit.store.rows.length = 5 ∧ ∃ shown : List AuditEvent, shown.length = 2 ∧
      shown.Sublist s.audit.store.rows ∧ (shown.map AuditEvent.eventId).Nodup ∧
        s.pushed = shown.map serialized := by
  obtain ⟨s, hs, hlengths⟩ := Option.map_eq_some_iff.mp exampleRun_shown
  simp only [Prod.mk.injEq] at hlengths
  obtain ⟨hrows, hlength, -⟩ := hlengths
  have plainUrl : ∀ ch ∈ exampleConfig.page.wsUrl.toList, ch ≠ '?' ∧ ch ≠ '#' := by
    simp [exampleConfig, EventStream.examplePage]
  obtain ⟨⟨shown, hsub, distinct, hpushed, -⟩, -⟩ := feed_follows_audit_log plainUrl exampleRun s hs
  refine ⟨s, hs, hrows, shown, ?_, hsub, distinct, hpushed⟩
  rwa [hpushed, List.length_map] at hlength

end LiveFeed
