import RiskCore.RelayDrain

/-!
# No row of the outbox starves

The services go on inserting rows while the relay calls `_process_batch`. Batches
are filled oldest first, so what is inserted behind a PENDING row never delays
it: the calls it waits for are bounded by the rows ahead of it, those there are
and those that still commit with an earlier `created_at`.
-/

namespace RelayFairness

open Values Outbox OutboxRelay RelayDrain

/-- A committed call of a service, or a call of the relay. A call whose
transaction is rolled back leaves the table as it was and counts for nothing. -/
inductive Action where
  | insert (e : OutboxEvent)
  | call (c : Call)

def step (rows : List OutboxEvent) : Action → Option (List OutboxEvent)
  | .insert e =>
    if isFresh e ∧ Tables.find OutboxEvent.id rows e.id = none then
      some (Tables.insert rows e)
    else none
  | .call c => some (processBatch c rows).1

def calls (as : List Action) : Nat :=
  as.countP (fun a => match a with | .call _ => true | .insert _ => false)

/-- Created no later than `since`. -/
def upTo (since : DateTime) (e : OutboxEvent) : Bool := e.createdAt ≤ since

/-- Rows that come in during the actions and were created no later than `since`. -/
def lateArrivals (since : DateTime) (as : List Action) : Nat :=
  as.countP (fun a => match a with | .call _ => false | .insert e => upTo since e)

def pendingAhead (since : DateTime) (rows : List OutboxEvent) : Nat :=
  (pending rows).countP (upTo since)

/-- The attempts left to the rows `p` picks. -/
def workOf (p : OutboxEvent → Bool) (rows : List OutboxEvent) : Nat :=
  (rows.map (fun e => if p e then left e else 0)).sum

theorem calls_insert (e : OutboxEvent) (as : List Action) : calls (.insert e :: as) = calls as := by
  simp [calls]

theorem calls_call (c : Call) (as : List Action) : calls (.call c :: as) = calls as + 1 := by
  simp [calls]

theorem lateArrivals_insert (since : DateTime) (e : OutboxEvent) (as : List Action) :
    lateArrivals since (.insert e :: as) =
      lateArrivals since as + if upTo since e then 1 else 0 := by
  simp [lateArrivals, List.countP_cons]

theorem lateArrivals_call (since : DateTime) (c : Call) (as : List Action) :
    lateArrivals since (.call c :: as) = lateArrivals since as := by
  simp [lateArrivals]

/-! ## The table between the steps -/

theorem insert_tidy {rows : List OutboxEvent} {e : OutboxEvent} (h : Tidy rows) (fresh : isFresh e)
    (new : Tables.find OutboxEvent.id rows e.id = none) : Tidy (Tables.insert rows e) where
  ids := Tables.insert_nodup h.ids new
  disciplined := by
    refine Tables.forall_insert h.disciplined ?_
    obtain ⟨hstatus, hattempts, hpublished⟩ := fresh
    simp only [Disciplined, hstatus, hattempts]
    exact ⟨by decide, hpublished⟩

theorem insert_ok {rows t : List OutboxEvent} {e : OutboxEvent}
    (h : step rows (.insert e) = some t) :
    isFresh e ∧ Tables.find OutboxEvent.id rows e.id = none ∧ t = Tables.insert rows e := by
  simp only [step] at h
  split at h
  · rename_i ok
    cases h
    exact ⟨ok.1, ok.2, rfl⟩
  · cases h

theorem insert_step {rows : List OutboxEvent} {e : OutboxEvent} (fresh : isFresh e)
    (new : Tables.find OutboxEvent.id rows e.id = none) :
    step rows (.insert e) = some (Tables.insert rows e) :=
  if_pos ⟨fresh, new⟩

/-- What happens here can happen to a relay process that has no batch open. -/
theorem run_of_relay {as : List Action} : ∀ {rows t : List OutboxEvent} {s : State 1},
    s.batches solo = none → s.rows = rows → Runs.run step rows as = some t →
      ∃ bs u, Runs.run OutboxRelay.step s bs = some u ∧ u.batches solo = none ∧ u.rows = t := by
  induction as with
  | nil =>
    intro rows t s idle hrows hrun
    cases hrun
    exact ⟨[], s, rfl, idle, hrows⟩
  | cons a as ih =>
    intro rows t s idle hrows hrun
    obtain ⟨r, hst, hrest⟩ := Runs.run_cons.mp hrun
    cases a with
    | insert e =>
      obtain ⟨fresh, new, rfl⟩ := insert_ok hst
      have inserted : OutboxRelay.step s (.insert e) =
          some { s with rows := Tables.insert s.rows e } := if_pos ⟨fresh, hrows ▸ new⟩
      obtain ⟨bs, u, hu, idle_u, rows_u⟩ :=
        ih (s := { s with rows := Tables.insert s.rows e }) idle (by simp only [hrows]) hrest
      exact ⟨.insert e :: bs, u, Runs.run_cons.mpr ⟨_, inserted, hu⟩, idle_u, rows_u⟩
    | call c =>
      cases hst
      obtain ⟨before, r, hr, idle_r, rows_r⟩ := processBatch_run c idle
      obtain ⟨bs, u, hu, idle_u, rows_u⟩ := ih idle_r (hrows ▸ rows_r) hrest
      exact ⟨before ++ bs, u, Runs.run_append.mpr ⟨r, hr, hu⟩, idle_u, rows_u⟩

theorem tidy : Runs.Inductive step Tidy := by
  intro rows a t h hst
  cases a with
  | insert e =>
    obtain ⟨fresh, new, rfl⟩ := insert_ok hst
    exact insert_tidy h fresh new
  | call c => exact RelayDrain.tidy rows c t h hst

theorem tidy_nil : Tidy [] where
  ids := List.nodup_nil
  disciplined := by simp

/-! ## The work ahead of a row -/

theorem left_le (e : OutboxEvent) : left e ≤ maxAttempts := by
  unfold left
  split <;> omega

section
variable (p : OutboxEvent → Bool)

theorem workOf_le (rows : List OutboxEvent) : workOf p rows ≤ 10 * (pending rows).countP p := by
  induction rows with
  | nil => exact Nat.zero_le _
  | cons e rest ih =>
    have hle := left_le e
    rw [maxAttempts] at hle
    simp only [workOf, pending] at ih
    simp only [workOf, pending, List.map_cons, List.sum_cons, List.filter_cons]
    by_cases waiting : e.status = .pending
    · simp only [waiting, decide_true, if_true, List.countP_cons]
      cases p e with
      | true =>
        simp only [if_true]
        omega
      | false =>
        simp only [Bool.false_eq_true, if_false]
        omega
    · have none_left : left e = 0 := if_neg waiting
      simp only [waiting, none_left, decide_false, Bool.false_eq_true, if_false, ite_self]
      omega

theorem workOf_insert (rows : List OutboxEvent) (e : OutboxEvent) :
    workOf p (Tables.insert rows e) ≤ workOf p rows + if p e then 10 else 0 := by
  have hle := left_le e
  rw [maxAttempts] at hle
  simp only [workOf, Tables.insert, List.map_append, List.sum_append, List.map_cons,
    List.map_nil, List.sum_cons, List.sum_nil]
  cases p e with
  | true =>
    simp only [if_true]
    omega
  | false =>
    simp only [Bool.false_eq_true, if_false]
    omega

/-- A call takes an attempt from each row of its batch. -/
theorem workOf_call {c : Call} {rows : List OutboxEvent} (h : Tidy rows)
    (kept : ∀ e, p (handle c e) = p e) :
    workOf p (processBatch c rows).1 + (batch c rows).countP p ≤ workOf p rows := by
  rw [← countP_batch h.ids, processBatch_rows h.ids, workOf, workOf, List.map_map]
  have each : ∀ row ∈ rows, row.id ∈ (batch c rows).map OutboxEvent.id →
      left (handle c row) + 1 ≤ left row := by
    intro row hrow selected
    have waiting := mem_pending.mp (mem_batch (mem_batch_of_id h.ids hrow selected))
    exact left_handle c waiting.2 (h.disciplined row hrow)
  generalize (batch c rows).map OutboxEvent.id = selected at each
  clear h
  induction rows with
  | nil => exact Nat.le_refl 0
  | cons row rest ih =>
    have hrest := ih (fun r hr => each r (List.mem_cons_of_mem _ hr))
    have hrow := each row List.mem_cons_self
    have hkept := kept row
    simp only [List.map_cons, List.sum_cons, List.countP_cons, Function.comp_apply]
    by_cases hsel : row.id ∈ selected
    · have hless := hrow hsel
      cases picked : p row with
      | true =>
        rw [picked] at hkept
        simp only [hsel, hkept, if_true, decide_true, Bool.and_self]
        omega
      | false =>
        rw [picked] at hkept
        simp only [hsel, hkept, if_true, Bool.false_and, Bool.false_eq_true, if_false]
        omega
    · simp only [hsel, if_false, decide_false, Bool.and_false, Bool.false_eq_true]
      omega

end

theorem origin_handle (c : Call) (e : OutboxEvent) : origin (handle c e) = origin e := by
  unfold handle
  split <;> rfl

theorem upTo_handle (since : DateTime) (c : Call) (e : OutboxEvent) :
    upTo since (handle c e) = upTo since e := by
  have instant : (handle c e).createdAt = e.createdAt :=
    congrArg Origin.createdAt (origin_handle c e)
  rw [upTo, instant, upTo]

/-! ## One row across the steps -/

/-- A PENDING row is tried, or the whole batch is no younger than it. -/
theorem tried_or_behind {c : Call} {rows : List OutboxEvent} (h : Tidy rows) {e : OutboxEvent}
    (he : e ∈ rows) (waiting : e.status = .pending) :
    handle c e ∈ (processBatch c rows).1 ∨
      (e ∈ (processBatch c rows).1 ∧
        (batch c rows).countP (upTo e.createdAt) = 100) := by
  by_cases selected : e.id ∈ (batch c rows).map OutboxEvent.id
  · refine Or.inl ?_
    rw [processBatch_rows h.ids]
    exact List.mem_map.mpr ⟨e, he, if_pos selected⟩
  · refine Or.inr ⟨?_, ?_⟩
    · rw [processBatch_rows h.ids]
      exact List.mem_map.mpr ⟨e, he, if_neg selected⟩
    · have full : batchSize ≤ (pending rows).length := by
        refine Nat.le_of_not_lt (fun room => selected ?_)
        exact List.mem_map_of_mem (batch_all room (mem_pending.mpr ⟨he, waiting⟩))
      have older : ∀ row ∈ batch c rows, upTo e.createdAt row = true :=
        fun row hrow =>
          decide_eq_true (RelayOrder.selectBatch_oldest hrow he waiting rfl selected)
      rw [List.countP_eq_length.mpr older, batch_length, Nat.min_eq_left full]
      rfl

/-- A row that is PUBLISHED or FAILED is left alone for good. -/
theorem settled_run {rows t : List OutboxEvent} {as : List Action} (h : Tidy rows)
    {e : OutboxEvent} (he : e ∈ rows) (settled : e.status ≠ .pending)
    (hrun : Runs.run step rows as = some t) : e ∈ t := by
  have stays : Runs.Inductive step (fun rows => Tidy rows ∧ e ∈ rows) := by
    refine tidy.and (J := fun rows => e ∈ rows) (fun rows a u h he hst => ?_)
    cases a with
    | insert new =>
      obtain ⟨-, -, rfl⟩ := insert_ok hst
      exact List.mem_append_left _ he
    | call c =>
      cases hst
      exact settled_kept h he settled
  exact (stays.run ⟨h, he⟩ hrun).2

/-- The calls that settle a row wherever it stands: one for each hundred attempts
ahead of it, and one for each try it has left. -/
theorem settles {as : List Action} : ∀ {rows t : List OutboxEvent} {e : OutboxEvent}, Tidy rows →
    e ∈ rows → (workOf (upTo e.createdAt) rows + 10 * lateArrivals e.createdAt as) / 100 + left e ≤
      calls as → Runs.run step rows as = some t →
        ∃ e' ∈ t, origin e' = origin e ∧ e'.status ≠ .pending := by
  induction as with
  | nil =>
    intro rows t e h he bound hrun
    cases hrun
    refine ⟨e, he, rfl, fun waiting => ?_⟩
    have hpos := left_pos waiting (h.disciplined e he)
    simp only [calls, List.countP_nil] at bound
    omega
  | cons a as ih =>
    intro rows t e h he bound hrun
    by_cases waiting : e.status = .pending
    · obtain ⟨u, hst, hrest⟩ := Runs.run_cons.mp hrun
      have hu := tidy rows a u h hst
      cases a with
      | insert new =>
        obtain ⟨-, -, rfl⟩ := insert_ok hst
        refine ih hu (List.mem_append_left _ he) ?_ hrest
        rw [calls_insert, lateArrivals_insert] at bound
        have hwork := workOf_insert (upTo e.createdAt) rows new
        split at hwork <;> rename_i older
        · rw [if_pos older] at bound
          omega
        · rw [if_neg older] at bound
          omega
      | call c =>
        cases hst
        have hwork := workOf_call (upTo e.createdAt) h (upTo_handle e.createdAt c)
        rw [calls_call, lateArrivals_call] at bound
        rcases tried_or_behind (c := c) h he waiting with hafter | ⟨hafter, full⟩
        · -- the row's own tries go down by one
          have hless := left_handle c waiting (h.disciplined e he)
          have same := origin_handle c e
          have instant : (handle c e).createdAt = e.createdAt := congrArg Origin.createdAt same
          obtain ⟨e', hmem, horigin, settled⟩ := ih hu hafter (by rw [instant]; omega) hrest
          exact ⟨e', hmem, horigin.trans same, settled⟩
        · -- a hundred attempts ahead of it are used up
          exact ih hu hafter (by omega) hrest
    · exact ⟨e, settled_run h he waiting hrun, rfl, waiting⟩

/-- In every run of inserts and calls, every row is PUBLISHED or FAILED after a
tenth of the rows ahead of it plus ten calls, whatever is inserted behind it and
whatever `produce()` answers; and from then on it stays as it is. -/
theorem no_row_starves (pre post : List Action) {s t : List OutboxEvent}
    (hs : Runs.run step [] pre = some s) (ht : Runs.run step s post = some t) {e : OutboxEvent}
    (he : e ∈ s)
    (enough : (pendingAhead e.createdAt s + lateArrivals e.createdAt post) / 10 + 10 ≤ calls post) :
    ∃ e' ∈ t, origin e' = origin e ∧ e'.status ≠ .pending ∧
      ∀ later u, Runs.run step t later = some u → e' ∈ u := by
  have hs' := tidy.run tidy_nil hs
  have ht' := tidy.run hs' ht
  have hahead : workOf (upTo e.createdAt) s ≤ 10 * pendingAhead e.createdAt s := workOf_le _ s
  have hleft := left_le e
  simp only [maxAttempts] at hleft
  obtain ⟨e', hmem, horigin, settled⟩ := settles hs' he (by omega) ht
  exact ⟨e', hmem, horigin, settled, fun later u hu => settled_run ht' hmem settled hu⟩

theorem calls_total (cs : List Call) : ∀ rows, ∃ t,
    Runs.run step rows (cs.map Action.call) = some t := by
  induction cs with
  | nil => exact fun rows => ⟨rows, rfl⟩
  | cons c cs ih => exact fun rows => ih (processBatch c rows).1

def exampleOutage : List Call := List.replicate 10 ⟨fun _ => 0, fun _ => .raised "down"⟩

/-- A younger row comes in, and then every `produce()` raises. -/
def exampleArrivals : List Action := .insert (exampleEvent 2 5) :: exampleOutage.map Action.call

theorem example_settles : ∃ t, Runs.run step [exampleEvent 1 0] exampleArrivals = some t ∧
    ∃ e' ∈ t, origin e' = origin (exampleEvent 1 0) ∧ e'.status ≠ .pending ∧
      ∀ later u, Runs.run step t later = some u → e' ∈ u := by
  have first : Runs.run step [] [.insert (exampleEvent 1 0)] = some [exampleEvent 1 0] :=
    Runs.run_cons.mpr ⟨_, insert_step (by decide) rfl, rfl⟩
  obtain ⟨t, ht⟩ := calls_total exampleOutage [exampleEvent 1 0, exampleEvent 2 5]
  have arrivals : Runs.run step [exampleEvent 1 0] exampleArrivals = some t :=
    Runs.run_cons.mpr ⟨_, insert_step (by decide) rfl, ht⟩
  exact ⟨t, arrivals, no_row_starves [.insert (exampleEvent 1 0)] exampleArrivals first arrivals
    List.mem_cons_self (by decide)⟩

end RelayFairness
