import RiskCore.RelayOrder

/-!
# The outbox drains

`_process_batch` called again and again on a table nobody adds to, with any
pattern of `produce()` answers. A call with a full batch uses up a hundred
attempts, and a call without one tries every PENDING row, so both the attempts
left and the tries left of the freshest row run out.
-/

namespace RelayDrain

open Values Outbox OutboxRelay

/-- What `produce()` does for one event. -/
inductive Answer where
  | returned (now : DateTime)
  | raised (error : String)

/-- One call: the order of rows of one instant, and the answer for each row. -/
structure Call where
  tie : UUID → Nat
  answer : UUID → Answer

def handle (c : Call) (e : OutboxEvent) : OutboxEvent :=
  match c.answer e.id with
  | .returned now => published e now
  | .raised error => failed e error

def pending (rows : List OutboxEvent) : List OutboxEvent :=
  rows.filter (fun e => e.status = .pending)

def publishedCount (rows : List OutboxEvent) : Nat :=
  rows.countP (fun e => e.status = .published)

def batch (c : Call) (rows : List OutboxEvent) : List OutboxEvent :=
  selectBatch c.tie (fun _ => false) rows

/-- `_process_batch` with no other relay around: the table it commits and the
number it returns. -/
def processBatch (c : Call) (rows : List OutboxEvent) : List OutboxEvent × Nat :=
  let saved := (batch c rows).map (handle c)
  (applySaves saved rows, publishedCount saved)

def step (rows : List OutboxEvent) (c : Call) : Option (List OutboxEvent) :=
  some (processBatch c rows).1

/-! ## A call of the relay process -/

def attempt (c : Call) (e : OutboxEvent) : Action 1 :=
  match c.answer e.id with
  | .returned now => .produced solo now
  | .raised error => .refused solo error

theorem attempts_run (c : Call) {todo : List OutboxEvent} :
    ∀ {s : State 1} {saved : List OutboxEvent}, s.batches solo = some ⟨saved, todo, false⟩ →
      ∃ t, Runs.run OutboxRelay.step s (todo.map (attempt c)) = some t ∧
        t.batches solo = some ⟨saved ++ todo.map (handle c), [], false⟩ ∧ t.rows = s.rows := by
  induction todo with
  | nil =>
    intro s saved at_solo
    exact ⟨s, rfl, by simpa using at_solo, rfl⟩
  | cons e todo ih =>
    intro s saved at_solo
    have tried : ∃ t, OutboxRelay.step s (attempt c e) = some t ∧
        t.batches solo = some ⟨saved ++ [handle c e], todo, false⟩ ∧ t.rows = s.rows := by
      simp only [attempt, handle]
      cases c.answer e.id with
      | returned now =>
        have returned : OutboxRelay.step s (.produced solo now) =
            some { s.setBatch solo (some ⟨saved ++ [published e now], todo, false⟩) with
              queues := Function.update s.queues solo (s.queues solo ++ [message e])
              handed := s.handed ++ [e] } := by
          simp only [OutboxRelay.step, at_solo]
        exact ⟨_, returned, setBatch_self s solo _, rfl⟩
      | raised error =>
        have raised : OutboxRelay.step s (.refused solo error) =
            some (s.setBatch solo (some ⟨saved ++ [failed e error], todo, false⟩)) := by
          simp only [OutboxRelay.step, at_solo]
        exact ⟨_, raised, setBatch_self s solo _, rfl⟩
    obtain ⟨t, ht, at_t, rows_t⟩ := tried
    obtain ⟨u, hu, at_u, rows_u⟩ := ih at_t
    refine ⟨u, Runs.run_cons.mpr ⟨t, ht, hu⟩, ?_, rows_u.trans rows_t⟩
    simpa using at_u

/-- The function agrees with the step relation of the relay. -/
theorem processBatch_run (c : Call) {s : State 1} (idle : s.batches solo = none) :
    ∃ as t, Runs.run OutboxRelay.step s as = some t ∧ t.batches solo = none ∧
      t.rows = (processBatch c s.rows).1 := by
  have free : s.locked = fun _ => false := funext (RelayOrder.locked_of_none idle)
  have selected : selectBatch c.tie s.locked s.rows = batch c s.rows := by rw [free, batch]
  cases hbatch : batch c s.rows with
  | nil =>
    refine ⟨[.select solo c.tie], s, ?_, idle, ?_⟩
    · simp [Runs.run, OutboxRelay.step, idle, selected, hbatch]
    · simp [processBatch, hbatch, applySaves]
  | cons e events =>
    have opened : OutboxRelay.step s (.select solo c.tie) =
        some (s.setBatch solo (some ⟨[], e :: events, false⟩)) := by
      simp only [OutboxRelay.step, idle, selected, hbatch]
    obtain ⟨t, ht, at_t, rows_t⟩ := attempts_run c (setBatch_self s solo
      (some ⟨[], e :: events, false⟩))
    rw [List.nil_append] at at_t
    have flushed : OutboxRelay.step t (.flush solo) =
        some (t.setBatch solo (some ⟨(e :: events).map (handle c), [], true⟩)) := by
      simp only [OutboxRelay.step, at_t]
    have committed : OutboxRelay.step
        (t.setBatch solo (some ⟨(e :: events).map (handle c), [], true⟩)) (.commit solo) =
        some { (t.setBatch solo (some ⟨(e :: events).map (handle c), [], true⟩)).setBatch solo none
          with rows := applySaves ((e :: events).map (handle c)) t.rows } := by
      simp only [OutboxRelay.step, setBatch_self, setBatch_rows]
    have whole := Runs.run_cons.mpr ⟨_, opened, Runs.run_append.mpr ⟨t, ht,
      Runs.run_cons.mpr ⟨_, flushed, Runs.run_cons.mpr ⟨_, committed, Runs.run_nil _⟩⟩⟩⟩
    refine ⟨_, _, whole, ?_, ?_⟩
    · simp [State.setBatch]
    · rw [processBatch, hbatch, rows_t, setBatch_rows]

/-! ## A call row by row -/

/-- The row keeps to its budget of attempts, and is stamped exactly when it is
PUBLISHED. -/
def Disciplined (e : OutboxEvent) : Prop :=
  match e.status with
  | .pending => e.attempts < maxAttempts ∧ e.publishedAt = none
  | .published => e.attempts < maxAttempts ∧ e.publishedAt ≠ none
  | .failed => e.attempts = maxAttempts ∧ e.publishedAt = none

/-- The attempts a row has left. -/
def left (e : OutboxEvent) : Nat :=
  if e.status = .pending then maxAttempts - e.attempts else 0

@[simp] theorem handle_id (c : Call) (e : OutboxEvent) : (handle c e).id = e.id := by
  unfold handle
  split <;> rfl

theorem saveTo_handle (c : Call) (e : OutboxEvent) : saveTo e (handle c e) = handle c e := by
  unfold handle
  split <;> rfl

theorem mem_pending {rows : List OutboxEvent} {e : OutboxEvent} :
    e ∈ pending rows ↔ e ∈ rows ∧ e.status = .pending := by
  simp [pending]

theorem handle_disciplined (c : Call) {e : OutboxEvent} (he : e.status = .pending)
    (h : Disciplined e) : Disciplined (handle c e) := by
  simp only [Disciplined, he] at h
  unfold handle
  split
  · exact ⟨h.1, Option.some_ne_none _⟩
  · by_cases last : e.attempts + 1 ≥ maxAttempts
    · simp only [Disciplined, failed, if_pos last]
      exact ⟨by omega, h.2⟩
    · simp only [Disciplined, failed, if_neg last, he]
      exact ⟨by omega, h.2⟩

theorem left_pos {e : OutboxEvent} (he : e.status = .pending) (h : Disciplined e) :
    0 < left e := by
  simp only [Disciplined, he] at h
  rw [left, if_pos he]
  omega

/-- Each try costs the row an attempt, or ends its trials. -/
theorem left_handle (c : Call) {e : OutboxEvent} (he : e.status = .pending)
    (h : Disciplined e) : left (handle c e) + 1 ≤ left e := by
  have hpos := left_pos he h
  have hleft : left e = maxAttempts - e.attempts := by rw [left, if_pos he]
  unfold handle
  split
  · rename_i now _
    have hdone : left (published e now) = 0 := if_neg (by simp)
    omega
  · rename_i error _
    have hfailed : left (failed e error) ≤ maxAttempts - (e.attempts + 1) := by
      unfold left
      split
      · exact Nat.le_refl _
      · exact Nat.zero_le _
    omega

section
variable {c : Call} {rows : List OutboxEvent}

theorem batch_eq : batch c rows =
    ((pending rows).insertionSort (Before c.tie)).take batchSize := by
  simp [batch, selectBatch, pending]

theorem batch_length : (batch c rows).length = min batchSize (pending rows).length := by
  rw [batch_eq, List.length_take, List.length_insertionSort]

theorem mem_batch {e : OutboxEvent} (h : e ∈ batch c rows) : e ∈ pending rows := by
  obtain ⟨hrow, hstatus, _⟩ := mem_selectBatch h
  exact mem_pending.mpr ⟨hrow, hstatus⟩

/-- A batch that is not full has every PENDING row. -/
theorem batch_all (room : (pending rows).length < batchSize) {e : OutboxEvent}
    (h : e ∈ pending rows) : e ∈ batch c rows := by
  rw [batch_eq, List.take_of_length_le]
  · exact (List.mem_insertionSort _).mpr h
  · rw [List.length_insertionSort]
    omega

variable (ids : (rows.map OutboxEvent.id).Nodup)
include ids

theorem batch_nodup : ((batch c rows).map OutboxEvent.id).Nodup := selectBatch_nodup ids

theorem mem_batch_of_id {row : OutboxEvent} (hrow : row ∈ rows)
    (h : row.id ∈ (batch c rows).map OutboxEvent.id) : row ∈ batch c rows := by
  obtain ⟨e, he, hid⟩ := List.mem_map.mp h
  rw [← List.inj_on_of_nodup_map ids (mem_pending.mp (mem_batch he)).1 hrow hid]
  exact he

theorem processBatch_rows : (processBatch c rows).1 = rows.map (fun row =>
    if row.id ∈ (batch c rows).map OutboxEvent.id then handle c row else row) := by
  have savedIds : ((batch c rows).map (handle c)).map OutboxEvent.id =
      (batch c rows).map OutboxEvent.id := by simp
  simp only [processBatch, applySaves]
  refine List.map_congr_left (fun row hrow => ?_)
  by_cases selected : row.id ∈ (batch c rows).map OutboxEvent.id
  · have hsaved := List.mem_map_of_mem (f := handle c) (mem_batch_of_id ids hrow selected)
    have hfind := Tables.find_of_mem (savedIds ▸ batch_nodup ids) hsaved
    rw [handle_id] at hfind
    rw [hfind, if_pos selected]
    exact saveTo_handle c row
  · have hfind : Tables.find OutboxEvent.id ((batch c rows).map (handle c)) row.id = none := by
      refine Tables.find_eq_none.mpr (fun e he hid => selected ?_)
      rw [← savedIds, ← hid]
      exact List.mem_map_of_mem he
    rw [hfind, if_neg selected]

/-- The rows of the batch, counted in the table. -/
theorem countP_batch (q : OutboxEvent → Bool) :
    rows.countP (fun row => q row && decide (row.id ∈ (batch c rows).map OutboxEvent.id)) =
      (batch c rows).countP q := by
  have same : (rows.filter (fun row => row.id ∈ (batch c rows).map OutboxEvent.id)).Perm
      (batch c rows) := by
    refine (List.perm_ext_iff_of_nodup (ids.of_map.filter _) (batch_nodup ids).of_map).mpr ?_
    intro e
    rw [List.mem_filter, decide_eq_true_eq]
    constructor
    · exact fun h => mem_batch_of_id ids h.1 h.2
    · exact fun h => ⟨(mem_pending.mp (mem_batch h)).1, List.mem_map_of_mem h⟩
  rw [← same.countP_eq, List.countP_filter]

/-- The number returned is the number of rows turned PUBLISHED. -/
theorem processBatch_returned : publishedCount (processBatch c rows).1 =
    publishedCount rows + (processBatch c rows).2 := by
  have hreturned : (processBatch c rows).2 =
      (batch c rows).countP (fun e => (handle c e).status = .published) := by
    simp only [processBatch, publishedCount, List.countP_map]
    rfl
  rw [hreturned, ← countP_batch ids, processBatch_rows ids, publishedCount, publishedCount,
    List.countP_map]
  -- a row of the batch was PENDING, so it is counted on one side only
  have each : ∀ row ∈ rows, row.id ∈ (batch c rows).map OutboxEvent.id → row.status = .pending :=
    fun row hrow h => (mem_pending.mp (mem_batch (mem_batch_of_id ids hrow h))).2
  generalize (batch c rows).map OutboxEvent.id = selected at each
  clear hreturned ids
  induction rows with
  | nil => rfl
  | cons row rest ih =>
    have hrest := ih (fun r hr => each r (List.mem_cons_of_mem _ hr))
    simp only [List.countP_cons, Function.comp_apply, hrest]
    by_cases hsel : row.id ∈ selected
    · have hpending := each row List.mem_cons_self hsel
      by_cases hdone : (handle c row).status = .published
      · simp [hsel, hpending, hdone]
        omega
      · simp [hsel, hpending, hdone]
    · by_cases hdone : row.status = .published
      · simp [hsel, hdone]
        omega
      · simp [hsel, hdone]

end

/-! ## Calls until nothing is left -/

/-- `processBatch` handles exactly the oldest PENDING rows that fit a batch. -/
structure HandlesOldest (rows : List OutboxEvent) (c : Call) (t : List OutboxEvent) : Prop where
  size : (batch c rows).length = min batchSize (pending rows).length
  pending : ∀ e ∈ batch c rows, e ∈ pending rows
  distinct : ((batch c rows).map OutboxEvent.id).Nodup
  oldest : ∀ e ∈ batch c rows, ∀ row ∈ RelayDrain.pending rows,
    row.id ∉ (batch c rows).map OutboxEvent.id → e.createdAt ≤ row.createdAt
  after : t = rows.map (fun row =>
    if row.id ∈ (batch c rows).map OutboxEvent.id then handle c row else row)
  returned : publishedCount t = publishedCount rows + (processBatch c rows).2

/-- What holds of the table between calls. -/
structure Tidy (rows : List OutboxEvent) : Prop where
  ids : (rows.map OutboxEvent.id).Nodup
  disciplined : ∀ e ∈ rows, Disciplined e

theorem handlesOldest {c : Call} {rows : List OutboxEvent} (h : Tidy rows) :
    HandlesOldest rows c (processBatch c rows).1 where
  size := batch_length
  pending := fun e he => mem_batch he
  distinct := batch_nodup h.ids
  oldest := by
    intro e he row hrow left_out
    obtain ⟨hmem, hstatus⟩ := mem_pending.mp hrow
    exact RelayOrder.selectBatch_oldest he hmem hstatus rfl left_out
  after := processBatch_rows h.ids
  returned := processBatch_returned h.ids

/-- A row after a call: it was PENDING and tried, or it is as it was. -/
theorem mem_processBatch {c : Call} {rows : List OutboxEvent} (h : Tidy rows) {e : OutboxEvent}
    (he : e ∈ (processBatch c rows).1) :
    (∃ row ∈ rows, row.status = .pending ∧ e = handle c row) ∨
      e ∈ rows ∧ e.id ∉ (batch c rows).map OutboxEvent.id := by
  rw [processBatch_rows h.ids] at he
  obtain ⟨row, hrow, rfl⟩ := List.mem_map.mp he
  by_cases selected : row.id ∈ (batch c rows).map OutboxEvent.id
  · rw [if_pos selected]
    have hpending := mem_pending.mp (mem_batch (mem_batch_of_id h.ids hrow selected))
    exact Or.inl ⟨row, hrow, hpending.2, rfl⟩
  · rw [if_neg selected]
    exact Or.inr ⟨hrow, selected⟩

theorem tidy : Runs.Inductive step Tidy := by
  intro rows c t h hst
  cases hst
  refine ⟨?_, ?_⟩
  · have same : (processBatch c rows).1.map OutboxEvent.id = rows.map OutboxEvent.id :=
      applySaves_id _ rows
    rw [same]
    exact h.ids
  · intro e he
    rcases mem_processBatch h he with ⟨row, hrow, hstatus, rfl⟩ | ⟨hmem, _⟩
    · exact handle_disciplined c hstatus (h.disciplined row hrow)
    · exact h.disciplined e hmem

/-- A row that has left PENDING is not touched again. -/
theorem settled_kept {c : Call} {rows : List OutboxEvent} (h : Tidy rows) {e : OutboxEvent}
    (he : e ∈ rows) (settled : e.status ≠ .pending) : e ∈ (processBatch c rows).1 := by
  rw [processBatch_rows h.ids]
  refine List.mem_map.mpr ⟨e, he, if_neg (fun selected => settled ?_)⟩
  exact (mem_pending.mp (mem_batch (mem_batch_of_id h.ids he selected))).2

/-- The attempts the whole table has left. -/
def work (rows : List OutboxEvent) : Nat := (rows.map left).sum

/-- At most `w` attempts in all, and at most `d` for any one row. -/
structure Within (rows : List OutboxEvent) (w d : Nat) : Prop where
  work : work rows ≤ w
  tries : ∀ e ∈ rows, left e ≤ d

theorem work_call {c : Call} {rows : List OutboxEvent} (h : Tidy rows) :
    work (processBatch c rows).1 + (batch c rows).length ≤ work rows := by
  have hcount := countP_batch (c := c) h.ids (fun _ => true)
  simp only [Bool.true_and, List.countP_true] at hcount
  rw [← hcount, processBatch_rows h.ids, work, work, List.map_map]
  have each : ∀ row ∈ rows, row.id ∈ (batch c rows).map OutboxEvent.id →
      left (handle c row) + 1 ≤ left row := by
    intro row hrow selected
    have hpending := mem_pending.mp (mem_batch (mem_batch_of_id h.ids hrow selected))
    exact left_handle c hpending.2 (h.disciplined row hrow)
  generalize (batch c rows).map OutboxEvent.id = selected at each
  clear hcount h
  induction rows with
  | nil => exact Nat.le_refl 0
  | cons row rest ih =>
    have hrest := ih (fun r hr => each r (List.mem_cons_of_mem _ hr))
    have hrow := each row List.mem_cons_self
    simp only [List.map_cons, List.sum_cons, List.countP_cons, Function.comp_apply]
    by_cases hsel : row.id ∈ selected
    · have := hrow hsel
      simp only [hsel, if_true, decide_true]
      omega
    · simp only [hsel, if_false, decide_false, Bool.false_eq_true]
      omega

theorem left_call {c : Call} {rows : List OutboxEvent} (h : Tidy rows) {d : Nat}
    (tries : ∀ e ∈ rows, left e ≤ d) : ∀ e ∈ (processBatch c rows).1, left e ≤ d := by
  intro e he
  rcases mem_processBatch h he with ⟨row, hrow, hstatus, rfl⟩ | ⟨hmem, _⟩
  · have hless := left_handle c hstatus (h.disciplined row hrow)
    have hle := tries row hrow
    omega
  · exact tries e hmem

/-- A call that has room tries every PENDING row once more. -/
theorem left_call_room {c : Call} {rows : List OutboxEvent} (h : Tidy rows) {d : Nat}
    (tries : ∀ e ∈ rows, left e ≤ d) (room : (pending rows).length < batchSize) :
    ∀ e ∈ (processBatch c rows).1, left e ≤ d - 1 := by
  intro e he
  rcases mem_processBatch h he with ⟨row, hrow, hstatus, rfl⟩ | ⟨hmem, hout⟩
  · have hless := left_handle c hstatus (h.disciplined row hrow)
    have hle := tries row hrow
    omega
  · have hidle : e.status ≠ .pending := fun hpending =>
      hout (List.mem_map_of_mem (batch_all room (mem_pending.mpr ⟨hmem, hpending⟩)))
    rw [left, if_neg hidle]
    exact Nat.zero_le _

theorem left_eq_zero {rows : List OutboxEvent} (h : Tidy rows)
    (none_left : ∀ e ∈ rows, left e ≤ 0) :
    pending rows = [] := by
  refine List.eq_nil_iff_forall_not_mem.mpr (fun e he => ?_)
  obtain ⟨hrow, hstatus⟩ := mem_pending.mp he
  have hpos := left_pos hstatus (h.disciplined e hrow)
  have hzero := none_left e hrow
  omega

/-- Hundreds of attempts left and tries left together go down by one a call. -/
theorem within_call {c : Call} {rows : List OutboxEvent} (h : Tidy rows) {w d n : Nat}
    (within : Within rows w d) (bound : w / 100 + d ≤ n + 1) :
    ∃ w' d', Within (processBatch c rows).1 w' d' ∧ w' / 100 + d' ≤ n := by
  have hwork := work_call (c := c) h
  have hw := within.work
  rw [batch_length, batchSize] at hwork
  rcases Nat.lt_or_ge (pending rows).length 100 with room | full
  · have hleft := left_call_room (c := c) h within.tries room
    by_cases hd : d = 0
    · -- no row has a try left, so there is no attempt left either
      subst hd
      have hzero : work rows = 0 := by
        refine List.sum_eq_zero_iff_forall_eq_nat.mpr (fun x hx => ?_)
        obtain ⟨e, he, rfl⟩ := List.mem_map.mp hx
        exact Nat.le_zero.mp (within.tries e he)
      exact ⟨0, 0, ⟨by omega, left_call h within.tries⟩, Nat.zero_le n⟩
    · exact ⟨w, d - 1, ⟨by omega, hleft⟩, by omega⟩
  · exact ⟨w - 100, d, ⟨by omega, left_call h within.tries⟩, by omega⟩

/-- Enough calls leave nothing PENDING. -/
theorem pending_eq_nil {calls : List Call} : ∀ {rows t : List OutboxEvent} {w d : Nat},
    Tidy rows → Within rows w d → w / 100 + d ≤ calls.length →
      Runs.run step rows calls = some t → pending t = [] := by
  induction calls with
  | nil =>
    intro rows t w d h within bound hrun
    cases hrun
    refine left_eq_zero h (fun e he => ?_)
    have htries := within.tries e he
    simp only [List.length_nil] at bound
    omega
  | cons c calls ih =>
    intro rows t w d h within bound hrun
    obtain ⟨u, hstep, hrest⟩ := Runs.run_cons.mp hrun
    have hu := tidy rows c u h hstep
    cases hstep
    obtain ⟨w', d', within', bound'⟩ := within_call (c := c) h within bound
    exact ih hu within' bound' hrest

theorem run_total (calls : List Call) : ∀ rows, ∃ t, Runs.run step rows calls = some t := by
  induction calls with
  | nil => exact fun rows => ⟨rows, rfl⟩
  | cons c calls ih => exact fun rows => ih (processBatch c rows).1

theorem fresh_within {rows : List OutboxEvent} (fresh : ∀ e ∈ rows, isFresh e) :
    Within rows (10 * rows.length) 10 := by
  have hleft : ∀ e ∈ rows, left e = 10 := by
    intro e he
    obtain ⟨hstatus, hattempts, _⟩ := fresh e he
    rw [left, if_pos hstatus, hattempts]
    rfl
  refine ⟨?_, fun e he => Nat.le_of_eq (hleft e he)⟩
  rw [work, List.map_congr_left hleft, List.map_const', List.sum_replicate_nat, Nat.mul_comm]

theorem fresh_tidy {rows : List OutboxEvent} (fresh : ∀ e ∈ rows, isFresh e)
    (ids : (rows.map OutboxEvent.id).Nodup) : Tidy rows where
  ids := ids
  disciplined := by
    intro e he
    obtain ⟨hstatus, hattempts, hpublished⟩ := fresh e he
    simp only [Disciplined, hstatus, hattempts]
    exact ⟨by decide, hpublished⟩

/-- From fresh rows on, with nothing inserted: every call handles the oldest
PENDING rows and returns how many of them it published, rows keep to their
budget and never leave PUBLISHED or FAILED, and a tenth of the rows plus ten
calls leave nothing PENDING. -/
theorem outbox_drains (rows : List OutboxEvent) (fresh : ∀ e ∈ rows, isFresh e)
    (ids : (rows.map OutboxEvent.id).Nodup) (calls : List Call) :
    Runs.Steps step HandlesOldest rows calls ∧
    Runs.Always step (fun rows => ∀ e ∈ rows, Disciplined e) rows calls ∧
    Runs.Steps step (fun rows _ t => ∀ e ∈ rows, e.status ≠ .pending → e ∈ t) rows calls ∧
    ∃ t, Runs.run step rows calls = some t ∧
      (rows.length / 10 + 10 ≤ calls.length → pending t = []) := by
  have htidy := fresh_tidy fresh ids
  have any : Runs.Steps step (fun _ _ _ => True) rows calls :=
    Runs.steps_of_forall (fun _ _ _ => trivial)
  refine ⟨?_, ?_, ?_, ?_⟩
  · refine Runs.steps_mono tidy (fun s c t h hst _ => ?_) htidy any
    cases hst
    exact handlesOldest h
  · exact (Runs.always_of_inductive tidy htidy).mono (fun _ h => h.disciplined)
  · refine Runs.steps_mono tidy (fun s c t h hst _ => ?_) htidy any
    cases hst
    exact fun e he settled => settled_kept h he settled
  · obtain ⟨t, hrun⟩ := run_total calls rows
    refine ⟨t, hrun, fun enough => ?_⟩
    exact pending_eq_nil htidy (fresh_within fresh) (by omega) hrun

/-- A hundred and twenty rows. -/
def exampleRows : List OutboxEvent :=
  (List.range 120).map (fun i => exampleEvent i (if i < 100 then 0 else 1))

/-- The hundred oldest are refused on every try, the others on the first call they are in. -/
def exampleCalls : List Call :=
  (List.range 22).map (fun n =>
    ⟨fun id => id.bits.toNat, fun id => if id.bits.toNat < 100 ∨ n = 10 then .raised "down"
      else .returned (exampleInstant 11 n)⟩)

theorem example_drains : ∃ t, Runs.run step exampleRows exampleCalls = some t ∧
    (∀ e ∈ t, Disciplined e) ∧ pending t = [] := by
  obtain ⟨-, disciplined, -, t, hrun, drained⟩ := outbox_drains exampleRows (by decide +kernel)
    (by decide +kernel) exampleCalls
  exact ⟨t, hrun, disciplined.last hrun, drained (by decide +kernel)⟩

end RelayDrain
