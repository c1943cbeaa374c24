import RiskCore.AuditFrames
import RiskCore.Components
import RiskCore.RelayDelivery

/-!
# A service with the relays of its outbox

The rows a transaction adds to the outbox are the rows the relays read: a service
and its relay processes share one table. Whatever the relays do to it, the events
in it stay those the transactions committed, and what the broker acknowledges is
the message of one of them.
-/

namespace Outlets

open Outbox Events OutboxRelay

variable {DB Call Err Env : Type} {View : Call → Type} {k : Nat}

structure State (DB Call : Type) (View : Call → Type) (Err : Type) (k : Nat) where
  requests : Requests.State DB Call View Err
  relay : OutboxRelay.State k

inductive Action (Call Env : Type) (k : Nat) where
  | request (a : Requests.Action Call Env)
  | relay (a : OutboxRelay.Action k)

section
variable (S : Requests.Service DB Call View Err Env) (outbox : DB → List OutboxEvent)

/-- The rows that have come in between two states of the database. -/
def added (db db' : DB) : List OutboxEvent := (outbox db').drop (outbox db).length

/-- What the table of the relays sees of a step. -/
def relayed (s : State DB Call View Err k) : Action Call Env k → List (OutboxRelay.Action k)
  | .request a =>
    match Requests.step S s.requests a with
    | some t => (added outbox s.requests.db t.db).map .insert
    | none => []
  | .relay a => [a]

/-- A transaction that draws a primary key the outbox has is no step: it fails with
an `IntegrityError`. Rows come in by transactions only. -/
def step (s : State DB Call View Err k) : Action Call Env k → Option (State DB Call View Err k)
  | .request a =>
    (Requests.step S s.requests a).bind (fun t =>
      (Runs.run OutboxRelay.step s.relay ((added outbox s.requests.db t.db).map .insert)).map
        (fun relay => ⟨t, relay⟩))
  | .relay (.insert _) => none
  | .relay a => (OutboxRelay.step s.relay a).map (fun relay => { s with relay := relay })

/-- What one step can do, case by case. -/
inductive Step (s : State DB Call View Err k) :
    Action Call Env k → State DB Call View Err k → Prop where
  | request {a t relay} (moved : Requests.step S s.requests a = some t)
      (inserted : Runs.run OutboxRelay.step s.relay
        ((added outbox s.requests.db t.db).map .insert) = some relay) :
      Step s (.request a) ⟨t, relay⟩
  | relay {a relay} (own : ∀ e, a ≠ .insert e) (moved : OutboxRelay.step s.relay a = some relay) :
      Step s (.relay a) { s with relay := relay }

variable {S outbox}

theorem step_relay (s : State DB Call View Err k) {a : OutboxRelay.Action k}
    (own : ∀ e, a ≠ .insert e) : step S outbox s (.relay a) =
      (OutboxRelay.step s.relay a).map (fun relay => { s with relay := relay }) := by
  cases a with
  | insert e => exact absurd rfl (own e)
  | _ => rfl

theorem step_sound {s t : State DB Call View Err k} {a : Action Call Env k}
    (h : step S outbox s a = some t) : Step S outbox s a t := by
  cases a with
  | request a =>
    obtain ⟨r, hr, hrest⟩ := Option.bind_eq_some_iff.mp h
    obtain ⟨relay, hrelay, rfl⟩ := Option.map_eq_some_iff.mp hrest
    exact .request hr hrelay
  | relay a =>
    cases a with
    | insert e => cases h
    | _ =>
      rw [step_relay s (fun e he => by cases he)] at h
      obtain ⟨relay, hrelay, rfl⟩ := Option.map_eq_some_iff.mp h
      exact .relay (fun e he => by cases he) hrelay

theorem relay_part : Components.Part (step (k := k) S outbox) OutboxRelay.step State.relay
    (relayed S outbox) := by
  intro s a t h
  cases step_sound h with
  | request moved inserted => simpa only [relayed, moved] using inserted
  | relay own moved => exact Runs.run_cons.mpr ⟨_, moved, rfl⟩

end

/-! ## What the relays leave alone -/

/-- The message of an event, from the part of it the relay never writes. -/
theorem map_message_congr {rows rows' : List OutboxEvent}
    (h : rows.map origin = rows'.map origin) : rows.map message = rows'.map message := by
  have hmessage : message = (fun o : Origin => Message.mk o.topic
      (if o.key = "" then o.aggregateId.str else o.key) o.payload) ∘ origin := rfl
  rw [hmessage, ← List.map_map, ← List.map_map, h]

/-- The rows a step of the relays inserts. -/
def inserted : OutboxRelay.Action k → List OutboxEvent
  | .insert e => [e]
  | _ => []

theorem step_origins {s t : OutboxRelay.State k} {a : OutboxRelay.Action k}
    (h : OutboxRelay.step s a = some t) :
    t.rows.map origin = s.rows.map origin ++ (inserted a).map origin := by
  cases OutboxRelay.step_sound h with
  | insert fresh new => simp [Tables.insert, inserted]
  | commit at_n => simp [applySaves_origin, inserted]
  | _ => simp [inserted]

/-- What is queued or acknowledged is the message of a row. -/
structure Carried (s : OutboxRelay.State k) : Prop where
  queues : ∀ n, s.queues n ⊆ s.rows.map message
  acked : s.acked ⊆ s.rows.map message

theorem Carried.of_same {s t : OutboxRelay.State k} (h : Carried s)
    (rows : s.rows.map message ⊆ t.rows.map message) (queues : ∀ n, t.queues n ⊆ s.queues n)
    (acked : t.acked = s.acked) : Carried t where
  queues := fun n _ hm => rows (h.queues n (queues n hm))
  acked := fun _ hm => rows (h.acked (acked ▸ hm))

theorem update_subset {queues : Fin k → List Message} {n : Fin k} {queue : List Message}
    (h : queue ⊆ queues n) (m : Fin k) : Function.update queues n queue m ⊆ queues m := by
  by_cases hm : m = n
  · subst hm
    rw [Function.update_self]
    exact h
  · rw [Function.update_of_ne hm]
    exact List.Subset.refl _

theorem carried : Runs.Inductive (OutboxRelay.step (k := k))
    (fun s => OutboxRelay.Coherent s ∧ Carried s) := by
  refine OutboxRelay.coherent.and ?_
  intro s a t coherent h hst
  have kept : s.rows.map message ⊆ t.rows.map message := by
    have horigins := step_origins hst
    rw [← List.map_append] at horigins
    rw [map_message_congr horigins, List.map_append]
    exact List.subset_append_left _ _
  cases OutboxRelay.step_sound hst with
  | @produced n now saved e todo at_n =>
    have queued : message e ∈ s.rows.map message := by
      obtain ⟨row, hrow, hsame, _⟩ := coherent.row_of at_n (e := e) (by simp [Batch.events])
      rw [← message_congr hsame]
      exact List.mem_map_of_mem hrow
    refine ⟨fun m => ?_, h.acked⟩
    by_cases hm : m = n
    · subst hm
      simp only [Function.update_self]
      exact List.append_subset.mpr ⟨h.queues m, by simpa using queued⟩
    · simp only [Function.update_of_ne hm]
      exact h.queues m
  | @die n => exact h.of_same kept (update_subset (List.nil_subset _)) rfl
  | @ack n i m queued =>
    refine ⟨fun j _ hj => h.queues j (update_subset List.eraseIdx_subset j hj), ?_⟩
    refine List.append_subset.mpr ⟨h.acked, ?_⟩
    simpa using h.queues n (List.mem_of_getElem? queued)
  | @drop n i => exact h.of_same kept (update_subset List.eraseIdx_subset) rfl
  | _ => exact h.of_same kept (fun _ => List.Subset.refl _) rfl

theorem carried_init : Carried (OutboxRelay.init : OutboxRelay.State k) where
  queues := fun _ _ hm => by cases hm
  acked := fun _ hm => by cases hm

/-- What is acknowledged stays acknowledged. -/
theorem acked_grows {s t : OutboxRelay.State k} {a : OutboxRelay.Action k}
    (h : OutboxRelay.step s a = some t) : s.acked <+: t.acked := by
  cases OutboxRelay.step_sound h with
  | ack queued => exact List.prefix_append _ _
  | _ => exact List.prefix_refl _

/-- Inserting moves nothing but the rows. -/
theorem run_inserts {s t : OutboxRelay.State k} {new : List OutboxEvent}
    (h : Runs.run OutboxRelay.step s (new.map .insert) = some t) :
    t.rows = s.rows ++ new ∧ t.acked = s.acked := by
  induction new generalizing s with
  | nil =>
    cases h
    simp
  | cons e new ih =>
    obtain ⟨r, hr, ht⟩ := Runs.run_cons.mp h
    obtain ⟨hrows, hacked⟩ := ih ht
    cases OutboxRelay.step_sound hr with
    | insert fresh isNew => exact ⟨by simp [hrows, Tables.insert], hacked⟩

/-! ## The table and the outbox -/

section
variable {S : Requests.Service DB Call View Err Env} {outbox : DB → List OutboxEvent}

/-- The relays' table holds the events of the outbox, each made by a builder. -/
structure Coherent (outbox : DB → List OutboxEvent) (s : State DB Call View Err k) : Prop where
  relay : OutboxRelay.Coherent s.relay
  carried : Carried s.relay
  rows : s.relay.rows.map origin = (outbox s.requests.db).map origin
  built : ∀ e ∈ outbox s.requests.db, FromBuilder e

/-- A transaction leaves the events there are, and those it adds are builders'. -/
structure Appends (S : Requests.Service DB Call View Err Env) (outbox : DB → List OutboxEvent) :
    Prop where
  kept : ∀ {db env c v db'}, S.commit db env c v = .ok db' → outbox db <+: outbox db'
  built : ∀ {db env c v db'}, S.commit db env c v = .ok db' →
    (∀ e ∈ outbox db, FromBuilder e) → ∀ e ∈ outbox db', FromBuilder e

theorem request_added (appends : Appends S outbox) {s t : Requests.State DB Call View Err}
    {a : Requests.Action Call Env} (h : Requests.step S s a = some t) :
    outbox t.db = outbox s.db ++ added outbox s.db t.db ∧
      ((∀ e ∈ outbox s.db, FromBuilder e) → ∀ e ∈ outbox t.db, FromBuilder e) := by
  rcases Requests.step_db h with ⟨same, _⟩ | ⟨n, env, c, v, _, _, hc, _⟩
  · rw [same]
    exact ⟨by simp [added], id⟩
  · obtain ⟨new, hnew⟩ := appends.kept hc
    refine ⟨?_, appends.built hc⟩
    rw [added, ← hnew, List.drop_left]

/-- A step adds to the outbox, if anything. -/
theorem step_outbox (appends : Appends S outbox) {s t : State DB Call View Err k}
    {a : Action Call Env k} (h : step S outbox s a = some t) :
    ∃ new, outbox t.requests.db = outbox s.requests.db ++ new := by
  cases step_sound h with
  | request moved inserted => exact ⟨_, (request_added appends moved).1⟩
  | relay own moved => exact ⟨[], (List.append_nil _).symm⟩

theorem coherent (appends : Appends S outbox) :
    Runs.Inductive (step (k := k) S outbox) (Coherent outbox) := by
  intro s a t h hst
  have hrelay : OutboxRelay.Coherent t.relay ∧ Carried t.relay :=
    carried.run ⟨h.relay, h.carried⟩ (relay_part s a t hst)
  refine ⟨hrelay.1, hrelay.2, ?_, ?_⟩
  · cases step_sound hst with
    | request moved inserted =>
      rw [(run_inserts inserted).1, (request_added appends moved).1, List.map_append,
        List.map_append, h.rows]
    | @relay a relay own moved =>
      have noRows : inserted a = [] := by
        cases a with
        | insert e => exact absurd rfl (own e)
        | _ => rfl
      rw [step_origins moved, noRows, List.map_nil, List.append_nil]
      exact h.rows
  · cases step_sound hst with
    | request moved inserted => exact (request_added appends moved).2 h.built
    | relay own moved => exact h.built

theorem coherent_init {db : DB} (empty : outbox db = []) :
    Coherent outbox (⟨Requests.init db, OutboxRelay.init⟩ : State DB Call View Err k) where
  relay := OutboxRelay.coherent_init
  carried := carried_init
  rows := (congrArg (List.map origin) empty).symm
  built := by
    intro e he
    have hmem : e ∈ outbox db := he
    rw [empty] at hmem
    cases hmem

/-- An acknowledged message is that of a committed event. -/
theorem Coherent.acked {s : State DB Call View Err k} (h : Coherent outbox s) {m : Message}
    (hm : m ∈ s.relay.acked) : ∃ e ∈ outbox s.requests.db, message e = m := by
  have hrow := h.carried.acked hm
  rw [map_message_congr h.rows] at hrow
  exact List.mem_map.mp hrow

theorem step_acked {s t : State DB Call View Err k} {a : Action Call Env k}
    (hst : step S outbox s a = some t) : s.relay.acked <+: t.relay.acked := by
  cases step_sound hst with
  | request moved inserted => exact (run_inserts inserted).2 ▸ List.prefix_refl _
  | relay own moved => exact acked_grows moved

/-- The table the relays leave behind, with every row PUBLISHED: every committed event
is acknowledged, if the relays committed only what was. -/
theorem Coherent.all_acked {s : State DB Call View Err k} (h : Coherent outbox s)
    (acked : RelayDelivery.AckedWhenPublished s.relay)
    (published : ∀ row ∈ s.relay.rows, row.status = .published) {e : OutboxEvent}
    (he : e ∈ outbox s.requests.db) : message e ∈ s.relay.acked := by
  have hmem : origin e ∈ s.relay.rows.map origin := by
    rw [h.rows]
    exact List.mem_map_of_mem he
  obtain ⟨row, hrow, hsame⟩ := List.mem_map.mp hmem
  rw [← message_congr hsame]
  exact acked row hrow (published row hrow)

end

end Outlets
