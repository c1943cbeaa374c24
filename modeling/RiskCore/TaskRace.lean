import Mathlib.Logic.Function.Basic
import RiskCore.ConsumerOffsets

/-!
# The e-mail task and the transaction that enqueues it

One consumer, the Celery queue and any number of workers. The consumer inserts a
`Notification`, enqueues its task and commits, one step each; a worker takes a
task, looks its row up among the committed ones, and sends or gives up; what else an
execution may raise is left out. Nothing makes the lookup wait for the commit.
-/

namespace TaskRace

open Values Payloads OutboxRelay NotificationConsumer

/-- The consumer's open transaction. -/
inductive Transaction where
  | closed
  | inserted (row : Notification)
  | enqueued (row : Notification)

def Transaction.row : Transaction → Option Notification
  | .closed => none
  | .inserted row => some row
  | .enqueued row => some row

/-- A worker with a task it has not looked up, or whose row it has found. -/
inductive Worker where
  | idle
  | taken (id : UUID)
  | sending (id : UUID)

def Worker.task : Worker → Option UUID
  | .idle => none
  | .taken id => some id
  | .sending id => some id

/-- `rows` are the committed ones; `drawn` are the identifiers `uuid4` has given
out and `missed` the tasks that took the `Notification.DoesNotExist` branch. -/
structure State where
  rows : List Notification
  transaction : Transaction
  queue : List UUID
  workers : Nat → Worker
  drawn : List UUID
  missed : List UUID

/-- `finish` is the end of an execution that found its row: it has saved SENT, or
FAILED and maybe a retry. `lose` is a worker that dies; its task is delivered
again. -/
inductive Action where
  | insert (m : Message) (id : UUID) (now : DateTime)
  | delay
  | commit
  | abort
  | take (w i : Nat)
  | lookup (w : Nat)
  | finish (w : Nat) (sent retry : Bool)
  | lose (w : Nat)

def init : State := ⟨[], .closed, [], fun _ => .idle, [], []⟩

def State.work (s : State) (w : Nat) (phase : Worker) : State :=
  { s with workers := Function.update s.workers w phase }

/-- The row after `save(update_fields=["status"])` of an execution. -/
def saved (row : Notification) (sent : Bool) : Notification :=
  { row with status := if sent then .sent else .failed }

def step (rt : Runtime) (defaultFromEmail : String) (s : State) : Action → Option State
  | .insert m id now =>
    match s.transaction,
      (draft defaultFromEmail m.value).bind (fun d => create rt s.rows d id now) with
    | .closed, some row =>
      if id ∈ s.drawn then none
      else some { s with transaction := .inserted row, drawn := s.drawn ++ [id] }
    | _, _ => none
  | .delay =>
    match s.transaction with
    | .inserted row => some { s with transaction := .enqueued row, queue := s.queue ++ [row.id] }
    | _ => none
  | .commit =>
    match s.transaction with
    | .enqueued row =>
      some { s with transaction := .closed, rows := Tables.insert s.rows row }
    | _ => none
  | .abort => some { s with transaction := .closed }
  | .take w i =>
    match s.workers w, s.queue[i]? with
    | .idle, some id => some ({ s with queue := s.queue.eraseIdx i }.work w (.taken id))
    | _, _ => none
  | .lookup w =>
    match s.workers w with
    | .taken id =>
      match Tables.find Notification.id s.rows id with
      | some _ => some (s.work w (.sending id))
      | none => some ({ s with missed := s.missed ++ [id] }.work w .idle)
    | _ => none
  | .finish w sent retry =>
    match s.workers w with
    | .sending id =>
      some ({ s with
        rows := Tables.update Notification.id s.rows id (fun row => saved row sent)
        queue := if retry then s.queue ++ [id] else s.queue }.work w .idle)
    | _ => none
  | .lose w =>
    match (s.workers w).task with
    | some id => some ({ s with queue := s.queue ++ [id] }.work w .idle)
    | none => none

/-- What one step can do, case by case. -/
inductive Step (rt : Runtime) (defaultFromEmail : String) (s : State) : Action → State → Prop where
  | insert {m id now d row} (closed : s.transaction = .closed)
      (drafted : draft defaultFromEmail m.value = some d)
      (created : create rt s.rows d id now = some row) (fresh : id ∉ s.drawn) :
      Step rt defaultFromEmail s (.insert m id now)
        { s with transaction := .inserted row, drawn := s.drawn ++ [id] }
  | delay {row} (inserted : s.transaction = .inserted row) :
      Step rt defaultFromEmail s .delay
        { s with transaction := .enqueued row, queue := s.queue ++ [row.id] }
  | commit {row} (enqueued : s.transaction = .enqueued row) :
      Step rt defaultFromEmail s .commit
        { s with transaction := .closed, rows := Tables.insert s.rows row }
  | abort : Step rt defaultFromEmail s .abort { s with transaction := .closed }
  | take {w i id} (idle : s.workers w = .idle) (queued : s.queue[i]? = some id) :
      Step rt defaultFromEmail s (.take w i)
        ({ s with queue := s.queue.eraseIdx i }.work w (.taken id))
  | found {w id row} (taken : s.workers w = .taken id)
      (visible : Tables.find Notification.id s.rows id = some row) :
      Step rt defaultFromEmail s (.lookup w) (s.work w (.sending id))
  | missed {w id} (taken : s.workers w = .taken id)
      (invisible : Tables.find Notification.id s.rows id = none) :
      Step rt defaultFromEmail s (.lookup w)
        ({ s with missed := s.missed ++ [id] }.work w .idle)
  | finish {w id sent retry} (sending : s.workers w = .sending id) :
      Step rt defaultFromEmail s (.finish w sent retry)
        ({ s with
          rows := Tables.update Notification.id s.rows id (fun row => saved row sent)
          queue := if retry then s.queue ++ [id] else s.queue }.work w .idle)
  | lose {w id} (holds : (s.workers w).task = some id) :
      Step rt defaultFromEmail s (.lose w) ({ s with queue := s.queue ++ [id] }.work w .idle)

theorem step_sound {rt : Runtime} {defaultFromEmail : String} {s t : State} {a : Action}
    (h : step rt defaultFromEmail s a = some t) : Step rt defaultFromEmail s a t := by
  cases a with
  | insert m id now =>
    simp only [step] at h
    split at h
    · rename_i row closed hrow
      obtain ⟨d, drafted, created⟩ := Option.bind_eq_some_iff.mp hrow
      split at h
      · cases h
      · rename_i fresh
        cases h
        exact .insert closed drafted created fresh
    · cases h
  | delay =>
    simp only [step] at h
    split at h
    · rename_i row inserted
      cases h
      exact .delay inserted
    · cases h
  | commit =>
    simp only [step] at h
    split at h
    · rename_i row enqueued
      cases h
      exact .commit enqueued
    · cases h
  | abort =>
    cases h
    exact .abort
  | take w i =>
    simp only [step] at h
    split at h
    · rename_i id idle queued
      cases h
      exact .take idle queued
    · cases h
  | lookup w =>
    simp only [step] at h
    split at h
    · rename_i id taken
      split at h
      · rename_i row visible
        cases h
        exact .found taken visible
      · rename_i invisible
        cases h
        exact .missed taken invisible
    · cases h
  | finish w sent retry =>
    simp only [step] at h
    split at h
    · rename_i id sending
      cases h
      exact .finish sending
    · cases h
  | lose w =>
    simp only [step] at h
    split at h
    · rename_i id holds
      cases h
      exact .lose holds
    · cases h

/-! ## What the claim asks, and when it holds -/

/-- The task of this identifier is in the queue or in the hands of a worker. -/
def Live (s : State) (id : UUID) : Prop :=
  id ∈ s.queue ∨ ∃ w, (s.workers w).task = some id

/-- No task of a committed row has missed it, and a committed row that is still
PENDING has its task. -/
structure Served (s : State) : Prop where
  visible : ∀ id ∈ s.missed, Tables.find Notification.id s.rows id = none
  pending : ∀ row ∈ s.rows, row.status = .pending → Live s row.id

/-- No worker looks up the row of a task while the transaction that enqueued it
is open. -/
def LookedUpClosed (s : State) (a : Action) (_ : State) : Prop :=
  match a with
  | .lookup w => ∀ row ∈ s.transaction.row, (s.workers w).task ≠ some row.id
  | _ => True

instance (s : State) : ∀ a t, Decidable (LookedUpClosed s a t)
  | .lookup w, _ =>
    inferInstanceAs (Decidable (∀ row ∈ s.transaction.row, (s.workers w).task ≠ some row.id))
  | .insert _ _ _, _ | .delay, _ | .commit, _ | .abort, _ | .take _ _, _ | .finish _ _ _, _
  | .lose _, _ => isTrue trivial

/-- The row of the open transaction is new to the table and to the workers. -/
structure Open (s : State) (row : Notification) : Prop where
  drawn : row.id ∈ s.drawn
  unmissed : row.id ∉ s.missed
  unstored : Tables.find Notification.id s.rows row.id = none

/-- `Served`, and what keeps it so: identifiers in use have been drawn, a worker
sends what it has found, and the row of the open transaction has its task. -/
structure Inv (s : State) : Prop where
  served : Served s
  stored : ∀ row ∈ s.rows, row.id ∈ s.drawn
  missed : ∀ id ∈ s.missed, id ∈ s.drawn
  live : ∀ id, Live s id → id ∈ s.drawn
  sending : ∀ w id, s.workers w = .sending id → Tables.find Notification.id s.rows id ≠ none
  row : ∀ row, s.transaction.row = some row → Open s row
  enqueued : ∀ row, s.transaction = .enqueued row → Live s row.id

theorem not_live_init (id : UUID) : ¬ Live init id := by
  rintro (hq | ⟨w, hw⟩)
  · cases hq
  · cases hw

theorem inv_init : Inv init where
  served := by
    constructor
    · intro id hid
      cases hid
    · intro row hrow
      cases hrow
  stored := by
    intro row hrow
    cases hrow
  missed := by
    intro id hid
    cases hid
  live := fun id hid => absurd hid (not_live_init id)
  sending := by
    intro w id hw
    cases hw
  row := by
    intro row hrow
    cases hrow
  enqueued := by
    intro row hrow
    cases hrow

/-- A task stays live when the one worker that moves, and the queue, keep it. -/
theorem Live.work {s s' : State} {w : Nat} {phase : Worker} {id : UUID} (h : Live s id)
    (workers : s'.workers = Function.update s.workers w phase)
    (queue : id ∈ s.queue → id ∈ s'.queue ∨ phase.task = some id)
    (worker : (s.workers w).task = some id → id ∈ s'.queue ∨ phase.task = some id) :
    Live s' id := by
  have handed : id ∈ s'.queue ∨ phase.task = some id → Live s' id := by
    rintro (hq | hp)
    · exact Or.inl hq
    · exact Or.inr ⟨w, by rw [workers, Function.update_self]; exact hp⟩
  rcases h with hq | ⟨v, hv⟩
  · exact handed (queue hq)
  · by_cases hvw : v = w
    · subst hvw
      exact handed (worker hv)
    · exact Or.inr ⟨v, by rw [workers, Function.update_of_ne hvw]; exact hv⟩

/-- Whatever is live after such a move was live before. -/
theorem live_of_work {s s' : State} {w : Nat} {phase : Worker} {id : UUID} (h : Live s' id)
    (workers : s'.workers = Function.update s.workers w phase)
    (queue : id ∈ s'.queue → Live s id) (worker : phase.task = some id → Live s id) :
    Live s id := by
  rcases h with hq | ⟨v, hv⟩
  · exact queue hq
  · rw [workers] at hv
    by_cases hvw : v = w
    · subst hvw
      rw [Function.update_self] at hv
      exact worker hv
    · rw [Function.update_of_ne hvw] at hv
      exact Or.inr ⟨v, hv⟩

/-- A move that only hands tasks around. -/
theorem Inv.handed {s s' : State} (hs : Inv s) (rows : s'.rows = s.rows)
    (transaction : s'.transaction = s.transaction) (drawn : s'.drawn = s.drawn)
    (missed : s'.missed = s.missed) (same : ∀ id, Live s' id ↔ Live s id)
    (sending : ∀ w id, s'.workers w = .sending id →
      Tables.find Notification.id s.rows id ≠ none) : Inv s' where
  served := by
    constructor
    · rw [rows, missed]
      exact hs.served.visible
    · rw [rows]
      exact fun row hrow hp => (same row.id).mpr (hs.served.pending row hrow hp)
  stored := by
    rw [rows, drawn]
    exact hs.stored
  missed := by
    rw [missed, drawn]
    exact hs.missed
  live := by
    rw [drawn]
    exact fun id hid => hs.live id ((same id).mp hid)
  sending := by
    rw [rows]
    exact sending
  row := by
    intro row hrow
    rw [transaction] at hrow
    obtain ⟨hdrawn, hmissed, hnew⟩ := hs.row row hrow
    exact ⟨drawn ▸ hdrawn, missed ▸ hmissed, rows ▸ hnew⟩
  enqueued := by
    rw [transaction]
    exact fun row hrow => (same row.id).mpr (hs.enqueued row hrow)

theorem mem_of_getElem? {queue : List UUID} {i : Nat} {id : UUID} (h : queue[i]? = some id)
    (x : UUID) : x ∈ queue ↔ x ∈ queue.eraseIdx i ∨ x = id := by
  constructor
  · intro hx
    obtain ⟨j, hj⟩ := List.mem_iff_getElem?.mp hx
    by_cases hji : j = i
    · subst hji
      exact Or.inr (Option.some.inj (hj.symm.trans h))
    · exact Or.inl (List.mem_eraseIdx_iff_getElem?.mpr ⟨j, hji, hj⟩)
  · rintro (hx | rfl)
    · exact List.mem_of_mem_eraseIdx hx
    · exact List.mem_of_getElem? h

theorem create_row {rt : Runtime} {rows : List Notification} {d : Draft} {id : UUID}
    {now : DateTime} {row : Notification} (h : create rt rows d id now = some row) :
    row.id = id := by
  simp only [create, bind, Option.bind_eq_some_iff] at h
  obtain ⟨eventId, -, recipient, -, h⟩ := h
  split at h
  · cases h
  · cases h
    rfl

theorem sending_work {s s' : State} {w : Nat} {phase : Worker} {P : UUID → Prop}
    (workers : s'.workers = Function.update s.workers w phase)
    (others : ∀ v id, s.workers v = .sending id → P id)
    (own : ∀ id, phase = .sending id → P id) : ∀ v id, s'.workers v = .sending id → P id := by
  intro v id hv
  rw [workers] at hv
  by_cases hvw : v = w
  · subst hvw
    rw [Function.update_self] at hv
    exact own id hv
  · rw [Function.update_of_ne hvw] at hv
    exact others v id hv

/-! ## One lemma for each action -/

section
variable {s : State}

theorem Inv.insert (hs : Inv s) {row : Notification} (fresh : row.id ∉ s.drawn) :
    Inv { s with transaction := .inserted row, drawn := s.drawn ++ [row.id] } := by
  have hold : ∀ x, x ∈ s.drawn → x ∈ s.drawn ++ [row.id] := fun x => List.mem_append_left _
  refine ⟨⟨hs.served.visible, hs.served.pending⟩, fun r hr => hold _ (hs.stored r hr),
    fun x hx => hold x (hs.missed x hx), fun x hx => hold x (hs.live x hx), hs.sending, ?_, ?_⟩
  · intro row' hrow'
    cases hrow'
    refine ⟨List.mem_append_right _ (List.mem_singleton_self _),
      fun hmissed => fresh (hs.missed row.id hmissed), ?_⟩
    exact Tables.find_eq_none.mpr (fun r hr heq => fresh (heq ▸ hs.stored r hr))
  · intro row' hrow'
    cases hrow'

theorem Inv.delay (hs : Inv s) {row : Notification} (inserted : s.transaction = .inserted row) :
    Inv { s with transaction := .enqueued row, queue := s.queue ++ [row.id] } := by
  obtain ⟨hdrawn, hmissed, hnew⟩ := hs.row row (by rw [inserted]; rfl)
  have grows : ∀ x, Live s x → Live { s with
      transaction := .enqueued row, queue := s.queue ++ [row.id] } x :=
    fun x hx => hx.imp (List.mem_append_left _) id
  refine ⟨⟨hs.served.visible, fun r hr hp => grows _ (hs.served.pending r hr hp)⟩, hs.stored,
    hs.missed, ?_, hs.sending, ?_, ?_⟩
  · rintro x (hq | hw)
    · rcases List.mem_append.mp hq with hq | hq
      · exact hs.live x (Or.inl hq)
      · rw [List.mem_singleton.mp hq]
        exact hdrawn
    · exact hs.live x (Or.inr hw)
  · intro row' hrow'
    cases hrow'
    exact ⟨hdrawn, hmissed, hnew⟩
  · intro row' hrow'
    cases hrow'
    exact Or.inl (List.mem_append_right _ (List.mem_singleton_self _))

/-- The committed row is new to the table, and its task is live. -/
theorem Inv.commit (hs : Inv s) {row : Notification} (enqueued : s.transaction = .enqueued row) :
    Inv { s with transaction := .closed, rows := Tables.insert s.rows row } := by
  obtain ⟨hdrawn, hmissed, hnew⟩ := hs.row row (by rw [enqueued]; rfl)
  refine ⟨⟨?_, ?_⟩, ?_, hs.missed, hs.live, ?_, ?_, ?_⟩
  · intro id hid
    have hne : row.id ≠ id := fun heq => hmissed (heq ▸ hid)
    rw [Tables.find_insert_ne hne]
    exact hs.served.visible id hid
  · exact Tables.forall_insert hs.served.pending (fun _ => hs.enqueued row enqueued)
  · exact Tables.forall_insert hs.stored hdrawn
  · exact fun w id hw => Tables.find_insert_ne_none row (hs.sending w id hw)
  · intro row' hrow'
    cases hrow'
  · intro row' hrow'
    cases hrow'

theorem Inv.abort (hs : Inv s) : Inv { s with transaction := .closed } := by
  refine ⟨⟨hs.served.visible, hs.served.pending⟩, hs.stored, hs.missed, hs.live, hs.sending, ?_, ?_⟩
  · intro row' hrow'
    cases hrow'
  · intro row' hrow'
    cases hrow'

variable {w : Nat} {id : UUID}

theorem Inv.take (hs : Inv s) {i : Nat} (idle : s.workers w = .idle)
    (queued : s.queue[i]? = some id) :
    Inv ({ s with queue := s.queue.eraseIdx i }.work w (.taken id)) := by
  refine hs.handed rfl rfl rfl rfl (fun x => ⟨fun hx => ?_, fun hx => ?_⟩)
    (sending_work rfl hs.sending (fun _ hp => by cases hp))
  · refine live_of_work hx rfl (fun hq => Or.inl ((mem_of_getElem? queued x).mpr (Or.inl hq))) ?_
    intro hp
    cases hp
    exact Or.inl (List.mem_of_getElem? queued)
  · refine hx.work rfl (fun hq => ((mem_of_getElem? queued x).mp hq).imp_right ?_) ?_
    · exact fun heq => congrArg some heq.symm
    · intro hw
      rw [idle] at hw
      cases hw

theorem Inv.found (hs : Inv s) {row : Notification} (taken : s.workers w = .taken id)
    (visible : Tables.find Notification.id s.rows id = some row) :
    Inv (s.work w (.sending id)) := by
  have htask : (s.workers w).task = some id := by rw [taken]; rfl
  refine hs.handed rfl rfl rfl rfl (fun x => ⟨fun hx => ?_, fun hx => ?_⟩)
    (sending_work rfl hs.sending ?_)
  · exact live_of_work hx rfl Or.inl (fun hp => Or.inr ⟨w, htask.trans hp⟩)
  · exact hx.work rfl Or.inl (fun hw => Or.inr (htask.symm.trans hw))
  · intro x hp
    cases hp
    rw [visible]
    exact Option.some_ne_none row

theorem Inv.lose (hs : Inv s) (holds : (s.workers w).task = some id) :
    Inv ({ s with queue := s.queue ++ [id] }.work w .idle) := by
  refine hs.handed rfl rfl rfl rfl (fun x => ⟨fun hx => ?_, fun hx => ?_⟩)
    (sending_work rfl hs.sending (fun _ hp => by cases hp))
  · refine live_of_work hx rfl (fun hq => ?_) (fun hp => by cases hp)
    rcases List.mem_append.mp hq with hq | hq
    · exact Or.inl hq
    · rw [List.mem_singleton.mp hq]
      exact Or.inr ⟨w, holds⟩
  · refine hx.work rfl (fun hq => Or.inl (List.mem_append_left _ hq)) (fun hw => ?_)
    have heq : id = x := Option.some.inj (holds.symm.trans hw)
    exact Or.inl (List.mem_append_right _ (List.mem_singleton.mpr heq.symm))

/-- The worker's task is gone, but no row that is or will be committed had it. -/
theorem Inv.missing (hs : Inv s) (taken : s.workers w = .taken id)
    (invisible : Tables.find Notification.id s.rows id = none)
    (closed : ∀ row, s.transaction.row = some row → row.id ≠ id) :
    Inv ({ s with missed := s.missed ++ [id] }.work w .idle) := by
  have htask : (s.workers w).task = some id := by rw [taken]; rfl
  have keeps : ∀ x, x ≠ id → Live s x →
      Live ({ s with missed := s.missed ++ [id] }.work w .idle) x := by
    intro x hne hx
    exact hx.work rfl Or.inl (fun hw => absurd (Option.some.inj (htask.symm.trans hw)).symm hne)
  refine ⟨⟨?_, ?_⟩, hs.stored, ?_, ?_,
    sending_work rfl hs.sending (fun _ hp => by cases hp), ?_, ?_⟩
  · exact Tables.forall_insert hs.served.visible invisible
  · intro r hr hp
    exact keeps r.id (Tables.find_eq_none.mp invisible r hr) (hs.served.pending r hr hp)
  · exact Tables.forall_insert hs.missed (hs.live id (Or.inr ⟨w, htask⟩))
  · exact fun x hx => hs.live x (live_of_work hx rfl Or.inl (fun hp => by cases hp))
  · intro row hrow
    obtain ⟨hdrawn, hnot, hnew⟩ := hs.row row hrow
    refine ⟨hdrawn, fun hmissed => ?_, hnew⟩
    rcases List.mem_append.mp hmissed with hmissed | hmissed
    · exact hnot hmissed
    · exact closed row hrow (List.mem_singleton.mp hmissed)
  · intro row hrow
    have henqueued : s.transaction = .enqueued row := hrow
    have hopen : s.transaction.row = some row := by rw [henqueued]; rfl
    exact keeps row.id (closed row hopen) (hs.enqueued row hrow)

/-- The row saved is no longer PENDING, so its task may go. -/
theorem Inv.finish (hs : Inv s) (sent retry : Bool) (sending : s.workers w = .sending id) :
    Inv ({ s with
      rows := Tables.update Notification.id s.rows id (fun row => saved row sent)
      queue := if retry then s.queue ++ [id] else s.queue }.work w .idle) := by
  have htask : (s.workers w).task = some id := by rw [sending]; rfl
  have found := hs.sending w id sending
  have keys : ∀ row : Notification, row.id = id → (saved row sent).id = id := fun _ h => h
  have keeps : ∀ x, x ≠ id → Live s x → Live ({ s with
      rows := Tables.update Notification.id s.rows id (fun row => saved row sent)
      queue := if retry then s.queue ++ [id] else s.queue }.work w .idle) x := by
    intro x hne hx
    refine hx.work rfl (fun hq => Or.inl ?_)
      (fun hw => absurd (Option.some.inj (htask.symm.trans hw)).symm hne)
    cases retry with
    | false => exact hq
    | true => exact List.mem_append_left _ hq
  have lookups : ∀ x, Tables.find Notification.id (Tables.update Notification.id s.rows id
      (fun row => saved row sent)) x = none ↔ Tables.find Notification.id s.rows x = none :=
    fun _ => Tables.find_update_eq_none keys
  refine ⟨⟨fun x hx => (lookups x).mpr (hs.served.visible x hx), ?_⟩, ?_, hs.missed, ?_, ?_, ?_, ?_⟩
  · intro r hr hp
    obtain ⟨old, hold, rfl⟩ := List.mem_map.mp hr
    by_cases hid : old.id = id
    · rw [if_pos hid] at hp
      cases sent <;> cases hp
    · rw [if_neg hid] at hp ⊢
      exact keeps old.id hid (hs.served.pending old hold hp)
  · intro r hr
    obtain ⟨old, hold, rfl⟩ := List.mem_map.mp hr
    by_cases hid : old.id = id
    · rw [if_pos hid]
      exact hs.stored old hold
    · rw [if_neg hid]
      exact hs.stored old hold
  · intro x hx
    refine hs.live x (live_of_work hx rfl (fun hq => ?_) (fun hp => by cases hp))
    cases retry with
    | false => exact Or.inl hq
    | true =>
      rcases List.mem_append.mp hq with hq | hq
      · exact Or.inl hq
      · rw [List.mem_singleton.mp hq]
        exact Or.inr ⟨w, htask⟩
  · exact sending_work rfl (fun v x hv => fun hnone => hs.sending v x hv ((lookups x).mp hnone))
      (fun _ hp => by cases hp)
  · intro row hrow
    obtain ⟨hdrawn, hnot, hnew⟩ := hs.row row hrow
    exact ⟨hdrawn, hnot, (lookups row.id).mpr hnew⟩
  · intro row hrow
    have henqueued : s.transaction = .enqueued row := hrow
    obtain ⟨-, -, hnew⟩ := hs.row row (by rw [henqueued]; rfl)
    have hne : row.id ≠ id := by
      rintro rfl
      exact found hnew
    exact keeps row.id hne (hs.enqueued row hrow)

end

theorem inv_step {rt : Runtime} {defaultFromEmail : String} {s t : State} {a : Action}
    (hs : Inv s) (h : step rt defaultFromEmail s a = some t) (closed : LookedUpClosed s a t) :
    Inv t := by
  cases step_sound h with
  | insert hclosed drafted created fresh =>
    obtain rfl := create_row created
    exact hs.insert fresh
  | delay inserted => exact hs.delay inserted
  | commit enqueued => exact hs.commit enqueued
  | abort => exact hs.abort
  | take idle queued => exact hs.take idle queued
  | found taken visible => exact hs.found taken visible
  | missed taken invisible =>
    refine hs.missing taken invisible (fun row hrow heq => closed row hrow ?_)
    rw [taken, heq]
    rfl
  | finish sending => exact hs.finish _ _ sending
  | lose holds => exact hs.lose holds

/-- In a run in which no task's row is looked up while its transaction is open, no
task of a row that is committed misses it, and every committed row that is still
PENDING has its task in the queue or in a worker's hands. -/
theorem served_of_looked_up_closed (rt : Runtime) (defaultFromEmail : String) (as : List Action)
    (closed : Runs.Steps (step rt defaultFromEmail) LookedUpClosed init as) :
    Runs.Always (step rt defaultFromEmail) Served init as :=
  (Runs.always_of_steps (I := fun _ => True) (fun _ _ _ _ _ => trivial)
    (fun _ _ _ _ hs h hclosed => inv_step hs h hclosed) trivial inv_init closed).mono
    (fun _ hs => hs.served)

open ConsumerOffsets

/-- One event handled, and its task executed after the commit. -/
def lookupAfterCommit : List Action :=
  [.insert (exampleCreated 0).message ⟨1000⟩ (exampleInstant 10 0), .delay, .commit,
    .take 0 0, .lookup 0, .finish 0 true false]

theorem lookupAfterCommit_served :
    Runs.Always (step exampleRuntime "noreply@riskcore.com") Served init lookupAfterCommit :=
  served_of_looked_up_closed exampleRuntime "noreply@riskcore.com" lookupAfterCommit
    (by decide +kernel)

/-- A worker is quicker than the commit. -/
def lookupBeforeCommit : List Action :=
  [.insert (exampleCreated 0).message ⟨1000⟩ (exampleInstant 10 0), .delay,
    .take 0 0, .lookup 0, .commit]

theorem lookupBeforeCommit_unserved :
    ¬ Runs.Always (step exampleRuntime "noreply@riskcore.com") Served init lookupBeforeCommit := by
  refine Runs.not_always_of_run (f := fun s => some (s.missed, s.rows.map Notification.id))
    (b := ([⟨1000⟩], [⟨1000⟩])) (by decide +kernel) ?_
  intro s hs hserved
  have hboth := Prod.mk.inj (Option.some.inj hs)
  have hmissed : (⟨1000⟩ : UUID) ∈ s.missed := by
    rw [hboth.1]
    exact List.mem_singleton_self _
  have hstored : (⟨1000⟩ : UUID) ∈ s.rows.map Notification.id := by
    rw [hboth.2]
    exact List.mem_singleton_self _
  obtain ⟨row, hrow, hid⟩ := List.mem_map.mp hstored
  exact Tables.find_eq_none.mp (hserved.visible _ hmissed) row hrow hid

end TaskRace
