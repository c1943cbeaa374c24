import Mathlib.Data.List.Sort
import RiskCore.Outbox
import RiskCore.Runs

/-!
# The outbox relay

`Command._process_batch`, the same code in policy-service and claims-service, as
a step relation: `k` relay processes over one outbox table. A batch locks the
oldest PENDING rows nobody else has locked, hands them to its producer one by
one, saves each in its transaction, flushes, and commits. Handing over only puts
a message into the producer's queue in memory; the broker acknowledges it later,
or it is lost.
-/

namespace OutboxRelay

open Values Outbox

def batchSize : Nat := 100

def maxAttempts : Nat := 10

structure Message where
  topic : String
  key : String
  value : Json

/-- The arguments of `producer.produce`. -/
def message (e : OutboxEvent) : Message :=
  ⟨e.topic, if e.key = "" then e.aggregateId.str else e.key, e.payload⟩

/-- The event after its `produce()` has returned. -/
def published (e : OutboxEvent) (now : DateTime) : OutboxEvent :=
  { e with status := .published, publishedAt := some now }

/-- The event after its `produce()` has raised. -/
def failed (e : OutboxEvent) (error : String) : OutboxEvent :=
  { e with
    attempts := e.attempts + 1
    lastError := String.ofList (error.toList.take 1000)
    status := if e.attempts + 1 ≥ maxAttempts then .failed else e.status }

/-- The row after `event.save(update_fields=[...])`. -/
def saveTo (row event : OutboxEvent) : OutboxEvent :=
  { row with
    status := event.status
    publishedAt := event.publishedAt
    attempts := event.attempts
    lastError := event.lastError }

/-- The rows with the saves of a transaction applied. -/
def applySaves (saved rows : List OutboxEvent) : List OutboxEvent :=
  rows.map (fun row =>
    match Tables.find OutboxEvent.id saved row.id with
    | some event => saveTo row event
    | none => row)

/-- `order_by("created_at")`; `tie` stands for the order the database gives rows
of the same instant. -/
def Before (tie : UUID → Nat) (a b : OutboxEvent) : Prop :=
  a.createdAt < b.createdAt ∨ (a.createdAt.key = b.createdAt.key ∧ tie a.id ≤ tie b.id)

instance (tie : UUID → Nat) : DecidableRel (Before tie) :=
  fun _ _ => inferInstanceAs (Decidable (_ ∨ _))

/-- The rows `_process_batch` reads under `FOR UPDATE SKIP LOCKED`. -/
def selectBatch (tie : UUID → Nat) (locked : UUID → Bool) (rows : List OutboxEvent) :
    List OutboxEvent :=
  ((rows.filter (fun e => e.status = .pending ∧ ¬ locked e.id)).insertionSort (Before tie)).take
    batchSize

/-! ## The system -/

/-- An open batch: the events already saved, the events still to do, and whether
`flush` has returned. -/
structure Batch where
  saved : List OutboxEvent
  todo : List OutboxEvent
  flushed : Bool

def Batch.events (b : Batch) : List OutboxEvent := b.saved ++ b.todo

/-- `rows` is the committed table, `acked` what the broker has acknowledged, and
`handed` the history of the `produce()` calls that returned. -/
structure State (k : Nat) where
  rows : List OutboxEvent
  batches : Fin k → Option Batch
  queues : Fin k → List Message
  acked : List Message
  handed : List OutboxEvent

/-- `insert` is a committed call of one of the services; `abort` rolls the
transaction of a batch back, `die` also loses the queue of the process; `ack` and
`drop` are the fates of the `i`-th queued message. -/
inductive Action (k : Nat) where
  | insert (e : OutboxEvent)
  | select (n : Fin k) (tie : UUID → Nat)
  | produced (n : Fin k) (now : DateTime)
  | refused (n : Fin k) (error : String)
  | flush (n : Fin k)
  | commit (n : Fin k)
  | abort (n : Fin k)
  | die (n : Fin k)
  | ack (n : Fin k) (i : Nat)
  | drop (n : Fin k) (i : Nat)

variable {k : Nat}

def State.locked (s : State k) (id : UUID) : Bool :=
  (List.finRange k).any (fun n =>
    match s.batches n with
    | some b => id ∈ b.events.map OutboxEvent.id
    | none => false)

def State.setBatch (s : State k) (n : Fin k) (b : Option Batch) : State k :=
  { s with batches := Function.update s.batches n b }

/-- A row as `OutboxEvent.objects.create` makes it. -/
def isFresh (e : OutboxEvent) : Prop :=
  e.status = .pending ∧ e.attempts = 0 ∧ e.publishedAt = none

instance (e : OutboxEvent) : Decidable (isFresh e) := inferInstanceAs (Decidable (_ ∧ _))

def init : State k := ⟨[], fun _ => none, fun _ => [], [], []⟩

def step (s : State k) : Action k → Option (State k)
  | .insert e =>
    if isFresh e ∧ Tables.find OutboxEvent.id s.rows e.id = none then
      some { s with rows := Tables.insert s.rows e }
    else none
  | .select n tie =>
    match s.batches n with
    | none =>
      match selectBatch tie s.locked s.rows with
      | [] => some s
      | e :: events => some (s.setBatch n (some ⟨[], e :: events, false⟩))
    | some _ => none
  | .produced n now =>
    match s.batches n with
    | some ⟨saved, e :: todo, false⟩ =>
      some { s.setBatch n (some ⟨saved ++ [published e now], todo, false⟩) with
        queues := Function.update s.queues n (s.queues n ++ [message e])
        handed := s.handed ++ [e] }
    | _ => none
  | .refused n error =>
    match s.batches n with
    | some ⟨saved, e :: todo, false⟩ =>
      some (s.setBatch n (some ⟨saved ++ [failed e error], todo, false⟩))
    | _ => none
  | .flush n =>
    match s.batches n with
    | some ⟨saved, [], false⟩ => some (s.setBatch n (some ⟨saved, [], true⟩))
    | _ => none
  | .commit n =>
    match s.batches n with
    | some ⟨saved, [], true⟩ => some { s.setBatch n none with rows := applySaves saved s.rows }
    | _ => none
  | .abort n =>
    match s.batches n with
    | some _ => some (s.setBatch n none)
    | none => none
  | .die n => some { s.setBatch n none with queues := Function.update s.queues n [] }
  | .ack n i =>
    match (s.queues n)[i]? with
    | some m =>
      some { s with
        queues := Function.update s.queues n ((s.queues n).eraseIdx i)
        acked := s.acked ++ [m] }
    | none => none
  | .drop n i =>
    some { s with queues := Function.update s.queues n ((s.queues n).eraseIdx i) }

@[simp] theorem setBatch_self (s : State k) (n : Fin k) (b : Option Batch) :
    (s.setBatch n b).batches n = b := by
  simp [State.setBatch]

@[simp] theorem setBatch_rows (s : State k) (n : Fin k) (b : Option Batch) :
    (s.setBatch n b).rows = s.rows := rfl

/-- What one step can do, case by case. -/
inductive Step (s : State k) : Action k → State k → Prop where
  | insert {e} (fresh : isFresh e) (new : Tables.find OutboxEvent.id s.rows e.id = none) :
      Step s (.insert e) { s with rows := Tables.insert s.rows e }
  | idle {n tie} (at_n : s.batches n = none) (none_left : selectBatch tie s.locked s.rows = []) :
      Step s (.select n tie) s
  | select {n tie events} (at_n : s.batches n = none)
      (selected : selectBatch tie s.locked s.rows = events) :
      Step s (.select n tie) (s.setBatch n (some ⟨[], events, false⟩))
  | produced {n now saved e todo} (at_n : s.batches n = some ⟨saved, e :: todo, false⟩) :
      Step s (.produced n now)
        { s.setBatch n (some ⟨saved ++ [published e now], todo, false⟩) with
          queues := Function.update s.queues n (s.queues n ++ [message e])
          handed := s.handed ++ [e] }
  | refused {n error saved e todo} (at_n : s.batches n = some ⟨saved, e :: todo, false⟩) :
      Step s (.refused n error) (s.setBatch n (some ⟨saved ++ [failed e error], todo, false⟩))
  | flush {n saved} (at_n : s.batches n = some ⟨saved, [], false⟩) :
      Step s (.flush n) (s.setBatch n (some ⟨saved, [], true⟩))
  | commit {n saved} (at_n : s.batches n = some ⟨saved, [], true⟩) :
      Step s (.commit n) { s.setBatch n none with rows := applySaves saved s.rows }
  | abort {n b} (at_n : s.batches n = some b) : Step s (.abort n) (s.setBatch n none)
  | die {n} : Step s (.die n)
      { s.setBatch n none with queues := Function.update s.queues n [] }
  | ack {n i m} (queued : (s.queues n)[i]? = some m) :
      Step s (.ack n i) { s with
        queues := Function.update s.queues n ((s.queues n).eraseIdx i)
        acked := s.acked ++ [m] }
  | drop {n i} : Step s (.drop n i)
      { s with queues := Function.update s.queues n ((s.queues n).eraseIdx i) }

theorem step_sound {s t : State k} {a : Action k} (h : step s a = some t) : Step s a t := by
  cases a with
  | insert e =>
    simp only [step] at h
    split at h
    · rename_i ok
      cases h
      exact .insert ok.1 ok.2
    · cases h
  | select n tie =>
    simp only [step] at h
    split at h
    · rename_i at_n
      split at h
      · rename_i none_left
        cases h
        exact .idle at_n none_left
      · rename_i e events selected
        cases h
        exact .select at_n selected
    · cases h
  | produced n now =>
    simp only [step] at h
    split at h
    · rename_i at_n
      cases h
      exact .produced at_n
    · cases h
  | refused n error =>
    simp only [step] at h
    split at h
    · rename_i at_n
      cases h
      exact .refused at_n
    · cases h
  | flush n =>
    simp only [step] at h
    split at h
    · rename_i at_n
      cases h
      exact .flush at_n
    · cases h
  | commit n =>
    simp only [step] at h
    split at h
    · rename_i at_n
      cases h
      exact .commit at_n
    · cases h
  | abort n =>
    simp only [step] at h
    split at h
    · rename_i at_n
      cases h
      exact .abort at_n
    · cases h
  | die n =>
    cases h
    exact .die
  | ack n i =>
    simp only [step] at h
    split at h
    · rename_i queued
      cases h
      exact .ack queued
    · cases h
  | drop n i =>
    cases h
    exact .drop

/-! ## The part of an event the relay never writes -/

structure Origin where
  id : UUID
  aggregateType : String
  aggregateId : UUID
  eventType : String
  topic : String
  key : String
  payload : Json
  createdAt : DateTime

def origin (e : OutboxEvent) : Origin :=
  ⟨e.id, e.aggregateType, e.aggregateId, e.eventType, e.topic, e.key, e.payload, e.createdAt⟩

@[simp] theorem origin_published (e : OutboxEvent) (now : DateTime) :
    origin (published e now) = origin e := rfl

@[simp] theorem origin_failed (e : OutboxEvent) (error : String) :
    origin (failed e error) = origin e := rfl

@[simp] theorem origin_saveTo (row event : OutboxEvent) : origin (saveTo row event) = origin row :=
  rfl

@[simp] theorem saveTo_status (row event : OutboxEvent) :
    (saveTo row event).status = event.status := rfl

@[simp] theorem published_status (e : OutboxEvent) (now : DateTime) :
    (published e now).status = .published := rfl

theorem map_origin_id (events : List OutboxEvent) :
    (events.map origin).map Origin.id = events.map OutboxEvent.id := by
  rw [List.map_map]
  rfl

theorem message_congr {e e' : OutboxEvent} (h : origin e = origin e') : message e = message e' := by
  simp only [origin, Origin.mk.injEq] at h
  obtain ⟨_, _, hid, _, htopic, hkey, hpayload, _⟩ := h
  simp only [message, hid, htopic, hkey, hpayload]

theorem applySaves_origin (saved rows : List OutboxEvent) :
    (applySaves saved rows).map origin = rows.map origin := by
  simp only [applySaves, List.map_map]
  apply List.map_congr_left
  intro row _
  simp only [Function.comp_apply]
  split <;> rfl

theorem applySaves_id (saved rows : List OutboxEvent) :
    (applySaves saved rows).map OutboxEvent.id = rows.map OutboxEvent.id := by
  rw [← map_origin_id, applySaves_origin, map_origin_id]

/-- A row after the saves of a transaction: overwritten by the event of its
identifier, or as it was. -/
theorem mem_applySaves {saved rows : List OutboxEvent} {r : OutboxEvent} :
    r ∈ applySaves saved rows ↔ ∃ row ∈ rows,
      (∃ e, Tables.find OutboxEvent.id saved row.id = some e ∧ r = saveTo row e) ∨
        Tables.find OutboxEvent.id saved row.id = none ∧ r = row := by
  simp only [applySaves, List.mem_map]
  refine exists_congr (fun row => and_congr_right (fun _ => ?_))
  cases hf : Tables.find OutboxEvent.id saved row.id with
  | none => simp [eq_comm]
  | some e => simp [eq_comm]

/-! ## The invariant of open batches -/

def Batch.origins (b : Batch) : List Origin := b.events.map origin

/-- The rows relay `n` holds locked. -/
def State.held (s : State k) (n : Fin k) : Option (List Origin) :=
  (s.batches n).map Batch.origins

/-- The locked rows of a batch are distinct and still PENDING in the table. -/
def Ready (rows : List OutboxEvent) (os : List Origin) : Prop :=
  (os.map Origin.id).Nodup ∧ ∀ o ∈ os, ∃ row ∈ rows, origin row = o ∧ row.status = .pending

structure Coherent (s : State k) : Prop where
  ids : (s.rows.map OutboxEvent.id).Nodup
  ready : ∀ n os, s.held n = some os → Ready s.rows os
  apart : ∀ n m os os', n ≠ m → s.held n = some os → s.held m = some os' →
    ∀ o ∈ os, ∀ o' ∈ os', o.id ≠ o'.id

theorem held_setBatch_self (s : State k) (n : Fin k) (b : Option Batch) :
    (s.setBatch n b).held n = b.map Batch.origins := by
  simp [State.held, State.setBatch]

theorem held_setBatch_ne (s : State k) {n m : Fin k} (b : Option Batch) (h : m ≠ n) :
    (s.setBatch n b).held m = s.held m := by
  simp [State.held, State.setBatch, h]

theorem held_setBatch_cases {s : State k} {n m : Fin k} {b : Option Batch} {os : List Origin}
    (h : (s.setBatch n b).held m = some os) :
    (m = n ∧ b.map Batch.origins = some os) ∨ (m ≠ n ∧ s.held m = some os) := by
  by_cases hm : m = n
  · rw [hm, held_setBatch_self] at h
    exact Or.inl ⟨hm, h⟩
  · rw [held_setBatch_ne s b hm] at h
    exact Or.inr ⟨hm, h⟩

/-- Handing an event over changes what will be saved, not what is locked. -/
theorem held_handled {s : State k} {n : Fin k} {saved todo : List OutboxEvent}
    {e e' : OutboxEvent} {flushed : Bool} (at_n : s.batches n = some ⟨saved, e :: todo, flushed⟩)
    (same : origin e' = origin e) :
    (s.setBatch n (some ⟨saved ++ [e'], todo, flushed⟩)).held = s.held := by
  funext m
  by_cases hm : m = n
  · rw [hm, held_setBatch_self]
    simp [State.held, at_n, Batch.origins, Batch.events, same]
  · exact held_setBatch_ne s _ hm

theorem held_flushed {s : State k} {n : Fin k} {saved : List OutboxEvent}
    (at_n : s.batches n = some ⟨saved, [], false⟩) :
    (s.setBatch n (some ⟨saved, [], true⟩)).held = s.held := by
  funext m
  by_cases hm : m = n
  · rw [hm, held_setBatch_self]
    simp [State.held, at_n, Batch.origins, Batch.events]
  · exact held_setBatch_ne s _ hm

theorem Coherent.of_same {s t : State k} (h : Coherent s) (rows : t.rows = s.rows)
    (held : t.held = s.held) : Coherent t where
  ids := rows ▸ h.ids
  ready := by
    rw [rows, held]
    exact h.ready
  apart := by
    rw [held]
    exact h.apart

theorem Coherent.release {s : State k} (h : Coherent s) (n : Fin k) :
    Coherent (s.setBatch n none) where
  ids := h.ids
  ready := by
    intro m os hm
    rcases held_setBatch_cases hm with ⟨_, hnone⟩ | ⟨_, hm⟩
    · cases hnone
    · exact h.ready m os hm
  apart := by
    intro m m' os os' hne hm hm'
    rcases held_setBatch_cases hm with ⟨_, hnone⟩ | ⟨_, hm⟩
    · cases hnone
    · rcases held_setBatch_cases hm' with ⟨_, hnone⟩ | ⟨_, hm'⟩
      · cases hnone
      · exact h.apart m m' os os' hne hm hm'

theorem locked_iff {s : State k} {id : UUID} :
    s.locked id = true ↔ ∃ n os, s.held n = some os ∧ id ∈ os.map Origin.id := by
  simp only [State.locked, List.any_eq_true, List.mem_finRange, true_and]
  refine exists_congr (fun n => ?_)
  cases hb : s.batches n with
  | none => simp [State.held, hb]
  | some b =>
    have hids : b.origins.map Origin.id = b.events.map OutboxEvent.id := map_origin_id _
    simp only [State.held, hb, Option.map_some, Option.some.injEq, exists_eq_left', hids,
      decide_eq_true_eq]

theorem mem_selectBatch {tie : UUID → Nat} {locked : UUID → Bool} {rows : List OutboxEvent}
    {e : OutboxEvent} (h : e ∈ selectBatch tie locked rows) :
    e ∈ rows ∧ e.status = .pending ∧ locked e.id = false := by
  have hmem := (List.mem_insertionSort (Before tie)).mp (List.mem_of_mem_take h)
  simpa using hmem

/-- Every row selected once. -/
theorem selectBatch_nodup {tie : UUID → Nat} {locked : UUID → Bool} {rows : List OutboxEvent}
    (h : (rows.map OutboxEvent.id).Nodup) :
    ((selectBatch tie locked rows).map OutboxEvent.id).Nodup := by
  have hfiltered := h.sublist ((List.filter_sublist (l := rows)
    (p := fun e => e.status = .pending ∧ ¬ locked e.id)).map OutboxEvent.id)
  have hsorted := ((List.perm_insertionSort (Before tie) _).map OutboxEvent.id).nodup_iff.mpr
    hfiltered
  exact hsorted.sublist ((List.take_sublist batchSize _).map OutboxEvent.id)

theorem Coherent.select {s : State k} (h : Coherent s) {n : Fin k} (tie : UUID → Nat) :
    Coherent (s.setBatch n (some ⟨[], selectBatch tie s.locked s.rows, false⟩)) := by
  have horigins : (Batch.mk [] (selectBatch tie s.locked s.rows) false).origins =
      (selectBatch tie s.locked s.rows).map origin := rfl
  -- a selected row is locked by nobody else
  have free : ∀ o ∈ (selectBatch tie s.locked s.rows).map origin, ∀ m os, s.held m = some os →
      ∀ o' ∈ os, o.id ≠ o'.id := by
    intro o ho m os hm o' ho' hid
    obtain ⟨e, he, rfl⟩ := List.mem_map.mp ho
    have hlocked : s.locked e.id = true :=
      locked_iff.mpr ⟨m, os, hm, List.mem_map.mpr ⟨o', ho', hid.symm⟩⟩
    rw [(mem_selectBatch he).2.2] at hlocked
    cases hlocked
  constructor
  · exact h.ids
  · intro m os hm
    rcases held_setBatch_cases hm with ⟨_, hsome⟩ | ⟨_, hm⟩
    · rw [Option.map_some, horigins] at hsome
      cases hsome
      constructor
      · rw [map_origin_id]
        exact selectBatch_nodup h.ids
      · intro o ho
        obtain ⟨e, he, rfl⟩ := List.mem_map.mp ho
        exact ⟨e, (mem_selectBatch he).1, rfl, (mem_selectBatch he).2.1⟩
    · exact h.ready m os hm
  · intro m m' os os' hne hm hm' o ho o' ho'
    rcases held_setBatch_cases hm with ⟨hmn, hsome⟩ | ⟨_, hm⟩
    · rcases held_setBatch_cases hm' with ⟨hmn', _⟩ | ⟨_, hm'⟩
      · exact absurd (hmn.trans hmn'.symm) hne
      · rw [Option.map_some, horigins] at hsome
        cases hsome
        exact free o ho m' os' hm' o' ho'
    · rcases held_setBatch_cases hm' with ⟨_, hsome⟩ | ⟨_, hm'⟩
      · rw [Option.map_some, horigins] at hsome
        cases hsome
        exact (free o' ho' m os hm o ho).symm
      · exact h.apart m m' os os' hne hm hm' o ho o' ho'

theorem Coherent.insert {s : State k} (h : Coherent s) {e : OutboxEvent}
    (new : Tables.find OutboxEvent.id s.rows e.id = none) :
    Coherent { s with rows := Tables.insert s.rows e } where
  ids := Tables.insert_nodup h.ids new
  ready := by
    intro n os hn
    obtain ⟨nodup, rows⟩ := h.ready n os hn
    refine ⟨nodup, fun o ho => ?_⟩
    obtain ⟨row, hrow, hrest⟩ := rows o ho
    exact ⟨row, List.mem_append_left _ hrow, hrest⟩
  apart := h.apart

/-- The saves of one batch leave the locked rows of the others alone. -/
theorem Coherent.commit {s : State k} (h : Coherent s) {n : Fin k} {saved : List OutboxEvent}
    (at_n : s.batches n = some ⟨saved, [], true⟩) :
    Coherent { s.setBatch n none with rows := applySaves saved s.rows } where
  ids := by
    rw [applySaves_id]
    exact h.ids
  ready := by
    intro m os hm
    rcases held_setBatch_cases (s := s) hm with ⟨_, hnone⟩ | ⟨hmn, hheld⟩
    · cases hnone
    · obtain ⟨nodup, rows⟩ := h.ready m os hheld
      refine ⟨nodup, fun o ho => ?_⟩
      obtain ⟨row, hrow, rfl, hpending⟩ := rows o ho
      refine ⟨row, mem_applySaves.mpr ⟨row, hrow, Or.inr ⟨?_, rfl⟩⟩, rfl, hpending⟩
      refine Tables.find_eq_none.mpr (fun e he hid => ?_)
      have hn : s.held n = some (saved.map origin) := by
        simp [State.held, at_n, Batch.origins, Batch.events]
      exact h.apart n m _ os (Ne.symm hmn) hn hheld (origin e) (List.mem_map_of_mem he) _ ho hid
  apart := (h.release n).apart

theorem coherent_init : Coherent (init : State k) where
  ids := List.nodup_nil
  ready := by
    intro n os hn
    cases hn
  apart := by
    intro n m os os' _ hn
    cases hn

theorem coherent : Runs.Inductive (step (k := k)) Coherent := by
  intro s a t h hs
  cases step_sound hs with
  | insert fresh new => exact h.insert new
  | idle at_n none_left => exact h
  | select at_n selected =>
    subst selected
    exact h.select _
  | produced at_n => exact h.of_same rfl (held_handled at_n rfl)
  | refused at_n => exact h.of_same rfl (held_handled at_n rfl)
  | flush at_n => exact h.of_same rfl (held_flushed at_n)
  | commit at_n => exact h.commit at_n
  | abort at_n => exact h.release _
  | @die n => exact (h.release n).of_same rfl rfl
  | ack queued => exact h.of_same rfl rfl
  | drop => exact h.of_same rfl rfl

/-- The table row of a locked event. -/
theorem Coherent.row_of {s : State k} (h : Coherent s) {n : Fin k} {b : Batch}
    (at_n : s.batches n = some b) {e : OutboxEvent} (he : e ∈ b.events) :
    ∃ row ∈ s.rows, origin row = origin e ∧ row.status = .pending := by
  have hheld : s.held n = some b.origins := by
    simp [State.held, at_n]
  exact (h.ready n _ hheld).2 (origin e) (List.mem_map_of_mem he)

/-- Identifiers determine rows. -/
theorem Coherent.origin_eq {s : State k} (h : Coherent s) {n : Fin k} {b : Batch}
    (at_n : s.batches n = some b) {e row : OutboxEvent} (he : e ∈ b.events)
    (hrow : row ∈ s.rows) (hid : row.id = e.id) : origin row = origin e := by
  obtain ⟨row', hrow', hsame, _⟩ := h.row_of at_n he
  have hid' : row'.id = row.id := (congrArg Origin.id hsame).trans hid.symm
  rw [← List.inj_on_of_nodup_map h.ids hrow' hrow hid']
  exact hsame

theorem Coherent.events_nodup {s : State k} (h : Coherent s) {n : Fin k} {b : Batch}
    (at_n : s.batches n = some b) : (b.events.map OutboxEvent.id).Nodup := by
  have hheld : s.held n = some b.origins := by
    simp [State.held, at_n]
  rw [← map_origin_id]
  exact (h.ready n _ hheld).1

/-- The relay where there is only one. -/
def solo : Fin 1 := 0

/-- The `i`-th status change of one claim, created at `10:minute`. -/
def exampleEvent (i minute : Nat) : OutboxEvent :=
  OutboxEvent.create ⟨BitVec.ofNat 128 i⟩ (exampleInstant 10 minute) "claim" ⟨7⟩
    "claim.status_changed" "claim.status_changed" (UUID.str ⟨7⟩) .null

end OutboxRelay
