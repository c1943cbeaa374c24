import RiskCore.ConsumerOffsets

/-!
# Committed offsets and broadcast events

`process_event` stores the row before it sends the event to the `audit_events`
group. When it does not get to the sending, the redelivered message meets its own
row, and the `IntegrityError` branch commits it as a duplicate.
-/

namespace AuditBroadcasts

open Values Payloads Events OutboxRelay AuditConsumer ConsumerOffsets

abbrev State := Offsets.State Relayed Store Point
abbrev Action := Offsets.Action Relayed Outcome

def step (rt : Runtime) : State → Action → Option State := Offsets.step (audit rt)

/-- No events, nothing sent, an empty log. -/
def init : State := Offsets.init ⟨[], []⟩

/-- The event of the message has been sent to the group. -/
def Sent (store : Store) (m : Relayed) : Prop :=
  ∃ event ∈ store.sent, eventId? m.message.value = some event.eventId

instance (store : Store) (m : Relayed) : Decidable (Sent store m) :=
  inferInstanceAs (Decidable (∃ event ∈ store.sent, _ = _))

/-- When the step commits the offset of a message, its event is stored and sent. -/
def StoredAndSent (rt : Runtime) (s : State) (a : Action) (t : State) : Prop :=
  Offsets.commits (audit rt) s a = true →
    ∀ d ∈ s.current, Audited t.store d.message ∧ Sent t.store d.message

instance (rt : Runtime) (s : State) (a : Action) (t : State) :
    Decidable (StoredAndSent rt s a t) :=
  inferInstanceAs (Decidable (Offsets.commits (audit rt) s a = true →
    ∀ d ∈ s.current, Audited t.store d.message ∧ Sent t.store d.message))

/-- The `IntegrityError` branch commits only what has been sent. -/
def DuplicateSent (s : State) (a : Action) (_ : State) : Prop :=
  a = .call .done → ∀ d ∈ s.current, d.point = .commitDuplicate → Sent s.store d.message

/-- A handler that has stored its row gets to send it: `group_send` does not raise
and the process does not go down before it. -/
def BroadcastReached (s : State) (a : Action) (_ : State) : Prop :=
  ∀ d ∈ s.current, ∀ event, d.point = .broadcast event → a ≠ .call .raised ∧ a ≠ .restart

/-! ## At each point of the handler -/

/-- `Ready`, and what it takes to know that a message is sent before `commit`. -/
def Underway (store : Store) (m : Relayed) : Point → Prop
  | .process => True
  | .broadcast event => Audited store m ∧ eventId? m.message.value = some event.eventId
  | .commit => Audited store m ∧ Sent store m
  | .commitDuplicate => Audited store m

theorem sound (rt : Runtime) : Offsets.Sound (audit rt) Audited Underway where
  start := fun _ _ => trivial
  call := by
    intro m p o store store' next ready h
    cases next_handled h with
    | @stored id now receivedAt event ok =>
      have hid := stored_eventId m ok
      refine .goto (fun _ => recorded_insert) ⟨⟨event, ?_, hid⟩, hid⟩
      exact List.mem_append_right _ (List.mem_singleton_self _)
    | duplicate taken => exact .goto (fun _ hm => hm) (duplicate_recorded m taken)
    | @sent event =>
      refine .goto (fun _ hm => hm) ⟨ready.1, event, ?_, ready.2⟩
      exact List.mem_append_right _ (List.mem_singleton_self _)
    | committed => exact .commit ready.1
    | duplicateCommitted => exact .commit ready
    | noDict => exact .stop (Or.inr rfl)
    | duplicateCommitFailed => exact .stop (Or.inr rfl)
    | _ => exact .stop (Or.inl rfl)

/-- An offset is committed from two points, and with the store left alone. -/
theorem commit_cases {rt : Runtime} {m : Relayed} {p : Point} {o : Outcome}
    {store store' : Store} (h : (audit rt).next m p o store = some (store', .commit)) :
    o = .done ∧ store' = store ∧ (p = .commit ∨ p = .commitDuplicate) := by
  cases next_handled h with
  | committed => exact ⟨rfl, rfl, Or.inl rfl⟩
  | duplicateCommitted => exact ⟨rfl, rfl, Or.inr rfl⟩

/-! ## Steps -/

section
variable {rt : Runtime} {s t : State} {a : Action}

theorem not_commits {o : Outcome} {d : Offsets.Delivery Relayed Point} {store : Store}
    {next : Offsets.Next Point} (busy : s.current = some d)
    (h : (audit rt).next d.message d.point o s.store = some (store, next))
    (other : next ≠ .commit) : Offsets.commits (audit rt) s (.call o) = false := by
  cases hc : Offsets.commits (audit rt) s (.call o) with
  | false => rfl
  | true => exact absurd ((Offsets.commits_of_next busy h).mp hc) other

theorem storedAndSent_iff (hs : Offsets.Coherent Underway s) (hst : step rt s a = some t) :
    StoredAndSent rt s a t ↔ DuplicateSent s a t := by
  -- a call that does not commit owes nothing on either side
  have quiet : ∀ {o d store next}, s.current = some d →
      (audit rt).next d.message d.point o s.store = some (store, next) → next ≠ .commit →
      (StoredAndSent rt s (.call o) t ↔ DuplicateSent s (.call o) t) := by
    intro o d store next busy h other
    have silent := not_commits busy h other
    refine iff_of_true (fun hc => ?_) ?_
    · rw [silent] at hc
      cases hc
    · intro ha d' hd' hp
      cases ha
      cases busy.symm.trans hd'
      rw [hp] at h
      cases h
      exact absurd rfl other
  cases Offsets.step_sound hst with
  | @commit o d store busy next =>
    obtain ⟨rfl, rfl, point⟩ := commit_cases next
    have hcommits := (Offsets.commits_of_next busy next).mpr rfl
    have ready := (hs.busy d busy).2.2.2.1
    constructor
    · intro h _ d' hd' _
      exact (h hcommits d' hd').2
    · intro h _ d' hd'
      cases busy.symm.trans hd'
      rcases point with hp | hp
      · rw [hp] at ready
        exact ready
      · rw [hp] at ready
        exact ⟨ready, h rfl d busy hp⟩
  | goto busy next => exact quiet busy next (fun he => by cases he)
  | leave busy next => exact quiet busy next (fun he => by cases he)
  | die busy next => exact quiet busy next (fun he => by cases he)
  | _ => exact iff_of_true (fun hc => by cases hc) (fun ha => by cases ha)

end

/-! ## Runs in which every broadcast is reached -/

/-- Every stored event is sent, or is the one that is about to be. -/
def SentBut (store : Store) (p : Option Point) : Prop :=
  ∀ row ∈ store.rows, (∃ event ∈ store.sent, event.eventId = row.eventId) ∨
    ∃ event, p = some (.broadcast event) ∧ event.eventId = row.eventId

def RowsSent (s : State) : Prop := SentBut s.store (s.current.map Offsets.Delivery.point)

theorem SentBut.all {store : Store} {p : Option Point} (h : SentBut store p)
    (other : ∀ event, p ≠ some (.broadcast event)) (q : Option Point) : SentBut store q := by
  intro row hrow
  rcases h row hrow with sent | ⟨event, hp, _⟩
  · exact Or.inl sent
  · exact absurd hp (other event)

/-- The point a call leads to, if it stays with the message. -/
def pointOf : Offsets.Next Point → Option Point
  | .goto p => some p
  | _ => none

theorem call_sentBut {rt : Runtime} {m : Relayed} {p : Point} {o : Outcome}
    {store store' : Store} {next : Offsets.Next Point} (hs : SentBut store (some p))
    (h : (audit rt).next m p o store = some (store', next))
    (reached : ∀ event, p = .broadcast event → o ≠ .raised) : SentBut store' (pointOf next) := by
  cases next_handled h with
  | @stored id now receivedAt event ok =>
    refine Tables.forall_insert (hs.all (fun event he => by cases he) _) ?_
    exact Or.inr ⟨event, rfl, rfl⟩
  | @sent event =>
    intro row hrow
    rcases hs row hrow with ⟨event', hsent, hid⟩ | ⟨event', hp, hid⟩
    · exact Or.inl ⟨event', List.mem_append_left _ hsent, hid⟩
    · cases hp
      exact Or.inl ⟨event, List.mem_append_right _ (List.mem_singleton_self _), hid⟩
  | @unsent event => exact absurd rfl (reached event rfl)
  | _ => exact hs.all (fun event he => by cases he) _

theorem rowsSent_step {rt : Runtime} {s t : State} {a : Action} (hs : RowsSent s)
    (hst : step rt s a = some t) (reached : BroadcastReached s a t) : RowsSent t := by
  have called : ∀ {o d store next}, s.current = some d → a = .call o →
      (audit rt).next d.message d.point o s.store = some (store, next) →
      SentBut store (pointOf next) := by
    intro o d store next busy ha h
    have here : SentBut s.store (some d.point) := by
      rw [RowsSent, busy] at hs
      exact hs
    refine call_sentBut here h (fun event hp ho => ?_)
    exact (reached d busy event hp).1 (by rw [ha, ho])
  cases Offsets.step_sound hst with
  | append => exact hs
  | empty => exact hs
  | poll idle at_position =>
    rw [RowsSent, idle] at hs
    exact hs.all (fun event he => by cases he) _
  | goto busy next => exact called busy rfl next
  | commit busy next => exact called busy rfl next
  | leave busy next => exact called busy rfl next
  | die busy next => exact called busy rfl next
  | restart =>
    refine hs.all (fun event he => ?_) _
    obtain ⟨d, hd, hp⟩ := Option.map_eq_some_iff.mp he
    exact (reached d hd event hp).2 rfl

theorem duplicateSent_of_rowsSent {s t : State} {a : Action}
    (hs : Offsets.Coherent Underway s) (rows : RowsSent s) : DuplicateSent s a t := by
  intro _ d hd hp
  obtain ⟨row, hrow, hid⟩ : Audited s.store d.message := by
    have ready := (hs.busy d hd).2.2.2.1
    rw [hp] at ready
    exact ready
  rcases rows row hrow with ⟨event, hsent, he⟩ | ⟨event, he, _⟩
  · exact ⟨event, hsent, by rw [he]; exact hid⟩
  · rw [hd, Option.map_some, hp] at he
    cases he

/-- In a run over builders' events every commit is of an event that is stored and
sent iff the `IntegrityError` branch never commits an event that is not sent. That
is so when every handler that stores its row gets to send it. -/
theorem stored_and_sent_iff (rt : Runtime) (as : List Action) :
    (Runs.Steps (step rt) (StoredAndSent rt) init as ↔ Runs.Steps (step rt) DuplicateSent init as) ∧
      (Runs.Steps (step rt) BroadcastReached init as →
        Runs.Steps (step rt) (StoredAndSent rt) init as) := by
  have coherent : Runs.Inductive (step rt) (Offsets.Coherent Underway) :=
    Offsets.coherent (sound rt)
  have start : Offsets.Coherent Underway init := Offsets.coherent_init _
  have exact_step : ∀ s a t, Offsets.Coherent Underway s → step rt s a = some t →
      (StoredAndSent rt s a t ↔ DuplicateSent s a t) :=
    fun s a t hs hst => storedAndSent_iff hs hst
  refine ⟨Runs.steps_congr coherent exact_step start, fun reached => ?_⟩
  refine Runs.steps_of_steps coherent (P := RowsSent)
    (fun s a t _ hrows hst hq => rowsSent_step hrows hst hq)
    (fun s a t hs hrows hst _ => ?_) start ?_ reached
  · exact (exact_step s a t hs hst).mpr (duplicateSent_of_rowsSent hs hrows)
  · intro row hrow
    cases hrow

/-- The row is stored, the channel layer refuses the message, the process comes
back and meets its own row. -/
def channelOutage : List Action :=
  [.append (exampleCreated 100),
    .poll, .call (.created ⟨1000⟩ (exampleInstant 10 0) (exampleInstant 10 0)), .call .raised,
    .restart,
    .poll, .call (.created ⟨1001⟩ (exampleInstant 10 0) (exampleInstant 10 0)), .call .done]

theorem channelOutage_committed_unsent :
    ¬ Runs.Steps (step exampleRuntime) (StoredAndSent exampleRuntime) init channelOutage := by
  decide

end AuditBroadcasts
