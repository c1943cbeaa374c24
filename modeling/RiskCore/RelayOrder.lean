import RiskCore.OutboxRelay

/-!
# The order of the messages of one aggregate

One relay, with rows arriving in `created_at` order. A batch is sorted, but a
row whose `produce()` raises stays PENDING and the loop goes on. That is the only
way a message gets past an older one of its aggregate and topic; as long as it
does not happen, they are handed over in `created_at` order.
-/

namespace RelayOrder

open Values Outbox OutboxRelay

/-- Events that share a topic and a key, hence a Kafka partition. -/
def Peers (a b : OutboxEvent) : Prop := a.aggregateId = b.aggregateId ∧ a.topic = b.topic

instance : DecidableRel Peers := fun _ _ => inferInstanceAs (Decidable (_ ∧ _))

/-- The table as the transaction of the relay sees it. -/
def view (s : State 1) : List OutboxEvent :=
  match s.batches solo with
  | some b => applySaves b.saved s.rows
  | none => s.rows

/-- The older peers of `e` that are still PENDING. -/
def overtaken (s : State 1) (e : OutboxEvent) : List OutboxEvent :=
  (view s).filter (fun row => row.status = .pending ∧ Peers row e ∧ row.createdAt < e.createdAt)

/-- The older peers of `e` that raised in this batch and will be tried again. -/
def raisedAhead (b : Batch) (e : OutboxEvent) : List OutboxEvent :=
  b.saved.filter (fun x => x.status = .pending ∧ Peers x e ∧ x.createdAt < e.createdAt)

/-- `P` holds of every event handed over successfully. -/
def HandsOver (P : State 1 → Batch → OutboxEvent → Prop) (s : State 1) (a : Action 1)
    (_ : State 1) : Prop :=
  match a, s.batches solo with
  | .produced _ _, some b => ∀ e ∈ b.todo.head?, P s b e
  | _, _ => True

instance (P : State 1 → Batch → OutboxEvent → Prop) [∀ s b e, Decidable (P s b e)]
    (s : State 1) (a : Action 1) (t : State 1) : Decidable (HandsOver P s a t) := by
  unfold HandsOver
  split <;> infer_instance

/-- New rows are not older than the rows already there. -/
def InOrder (s : State 1) (a : Action 1) (_ : State 1) : Prop :=
  match a with
  | .insert e => ∀ row ∈ s.rows, row.createdAt ≤ e.createdAt
  | _ => True

instance (s : State 1) (a : Action 1) (t : State 1) : Decidable (InOrder s a t) := by
  unfold InOrder
  split <;> infer_instance

/-- No batch is rolled back. -/
def NoRollback (_ : State 1) (a : Action 1) (_ : State 1) : Prop :=
  match a with
  | .abort _ | .die _ => False
  | _ => True

instance (s : State 1) (a : Action 1) (t : State 1) : Decidable (NoRollback s a t) := by
  unfold NoRollback
  split <;> infer_instance

/-- No message overtakes an older one that is still PENDING. -/
def OvertakesNothing (s : State 1) (_ : Batch) (e : OutboxEvent) : Prop := overtaken s e = []

instance (s : State 1) (b : Batch) (e : OutboxEvent) : Decidable (OvertakesNothing s b e) :=
  inferInstanceAs (Decidable (_ = _))

/-! ## What a batch selects -/

instance (tie : UUID → Nat) : Std.Total (Before tie) where
  total a b := by
    change (a.createdAt.key < b.createdAt.key ∨ _) ∨ (b.createdAt.key < a.createdAt.key ∨ _)
    omega

instance (tie : UUID → Nat) : IsTrans OutboxEvent (Before tie) where
  trans a b c hab hbc := by
    change a.createdAt.key < b.createdAt.key ∨ _ at hab
    change b.createdAt.key < c.createdAt.key ∨ _ at hbc
    change a.createdAt.key < c.createdAt.key ∨ _
    omega

theorem createdAt_le_of_before {tie : UUID → Nat} {a b : OutboxEvent} (h : Before tie a b) :
    a.createdAt ≤ b.createdAt := by
  rcases h with h | ⟨h, _⟩
  · exact Nat.le_of_lt h
  · exact Nat.le_of_eq h

theorem selectBatch_sorted (tie : UUID → Nat) (locked : UUID → Bool) (rows : List OutboxEvent) :
    (selectBatch tie locked rows).Pairwise (fun a b => a.createdAt ≤ b.createdAt) := by
  have hsorted := List.pairwise_insertionSort (Before tie)
    (rows.filter (fun e => e.status = .pending ∧ ¬ locked e.id))
  exact (hsorted.sublist (List.take_sublist batchSize _)).imp createdAt_le_of_before

/-- A batch takes the oldest rows: what it leaves is not older. -/
theorem selectBatch_oldest {tie : UUID → Nat} {locked : UUID → Bool} {rows : List OutboxEvent}
    {e row : OutboxEvent} (he : e ∈ selectBatch tie locked rows) (hrow : row ∈ rows)
    (pending : row.status = .pending) (free : locked row.id = false)
    (left : row.id ∉ (selectBatch tie locked rows).map OutboxEvent.id) :
    e.createdAt ≤ row.createdAt := by
  have hsorted := List.pairwise_insertionSort (Before tie)
    (rows.filter (fun e => e.status = .pending ∧ ¬ locked e.id))
  have hmem : row ∈ (rows.filter (fun e => e.status = .pending ∧ ¬ locked e.id)).insertionSort
      (Before tie) :=
    (List.mem_insertionSort (Before tie)).mpr (List.mem_filter.mpr ⟨hrow, by simp [pending, free]⟩)
  rw [← List.take_append_drop batchSize (List.insertionSort _ _)] at hsorted hmem
  have hdrop := (List.mem_append.mp hmem).resolve_left (fun h => left (List.mem_map_of_mem h))
  exact createdAt_le_of_before ((List.pairwise_append.mp hsorted).2.2 e he row hdrop)

theorem locked_of_none {s : State 1} (h : s.batches solo = none) (id : UUID) :
    s.locked id = false := by
  refine Bool.eq_false_iff.mpr (fun hlocked => ?_)
  obtain ⟨n, os, hos, _⟩ := locked_iff.mp hlocked
  obtain rfl : n = solo := Fin.eq_zero n
  simp [State.held, h] at hos

/-- The events of an open batch are sorted, and no PENDING row it has left out is
older than one of them. -/
def Sorted (rows : List OutboxEvent) (os : List Origin) : Prop :=
  os.Pairwise (fun o o' => o.createdAt ≤ o'.createdAt) ∧
    ∀ row ∈ rows, row.status = .pending → row.id ∉ os.map Origin.id →
      ∀ o ∈ os, o.createdAt ≤ row.createdAt

structure Ordered (s : State 1) : Prop where
  sorted : ∀ os, s.held solo = some os → Sorted s.rows os
  tried : ∀ b, s.batches solo = some b → ∀ x ∈ b.saved,
    x.status = .published ∨ ∃ e error, x = failed e error

theorem Ordered.of_same {s t : State 1} (h : Ordered s) (rows : t.rows = s.rows)
    (held : t.held = s.held)
    (tried : ∀ b, t.batches solo = some b → ∀ x ∈ b.saved,
      x.status = .published ∨ ∃ e error, x = failed e error) : Ordered t where
  sorted := by
    rw [rows, held]
    exact h.sorted
  tried := tried

theorem ordered_of_none {s : State 1} (h : s.batches solo = none) : Ordered s where
  sorted := by
    intro os hos
    simp only [State.held, h, Option.map_none] at hos
    cases hos
  tried := by
    intro b hb
    rw [h] at hb
    cases hb

theorem setBatch_solo (s : State 1) (b : Option Batch) : (s.setBatch solo b).batches solo = b := by
  simp [State.setBatch]

theorem Ordered.handled {s : State 1} (h : Ordered s) {saved todo : List OutboxEvent}
    {e e' : OutboxEvent} {flushed : Bool}
    (at_n : s.batches solo = some ⟨saved, e :: todo, flushed⟩) (same : origin e' = origin e)
    (tried : e'.status = .published ∨ ∃ y error, e' = failed y error) :
    Ordered (s.setBatch solo (some ⟨saved ++ [e'], todo, flushed⟩)) := by
  refine h.of_same rfl (held_handled at_n same) ?_
  intro b hb x hx
  cases (setBatch_solo s _).symm.trans hb
  rcases List.mem_append.mp hx with hx | hx
  · exact h.tried _ at_n x hx
  · rw [List.mem_singleton.mp hx]
    exact tried

theorem sorted_select {s : State 1} (at_n : s.batches solo = none) (tie : UUID → Nat) :
    Sorted s.rows ((selectBatch tie s.locked s.rows).map origin) := by
  constructor
  · exact List.pairwise_map.mpr (selectBatch_sorted tie s.locked s.rows)
  · intro row hrow pending left o ho
    obtain ⟨e, he, rfl⟩ := List.mem_map.mp ho
    rw [map_origin_id] at left
    exact selectBatch_oldest he hrow pending (locked_of_none at_n row.id) left

theorem sorted_insert {s : State 1} (coh : Coherent s) (h : Ordered s) {e : OutboxEvent}
    (latest : ∀ row ∈ s.rows, row.createdAt ≤ e.createdAt) {os : List Origin}
    (hos : s.held solo = some os) : Sorted (Tables.insert s.rows e) os := by
  obtain ⟨sorted, oldest⟩ := h.sorted os hos
  refine ⟨sorted, ?_⟩
  intro row hrow pending left o ho
  rcases List.mem_append.mp hrow with hrow | hrow
  · exact oldest row hrow pending left o ho
  · obtain ⟨row', hrow', rfl, _⟩ := (coh.ready solo os hos).2 o ho
    rw [List.mem_singleton.mp hrow]
    exact latest row' hrow'

theorem ordered_step {s t : State 1} {a : Action 1} (coh : Coherent s) (h : Ordered s)
    (hst : step s a = some t) (inOrder : InOrder s a t) : Ordered t := by
  cases step_sound hst with
  | insert fresh new => exact ⟨fun os hos => sorted_insert coh h inOrder hos, h.tried⟩
  | idle at_n none_left => exact h
  | @select n tie events at_n selected =>
    obtain rfl : n = solo := Fin.eq_zero n
    subst selected
    constructor
    · intro os hos
      rw [held_setBatch_self] at hos
      cases hos
      exact sorted_select at_n tie
    · intro b hb
      rw [setBatch_solo] at hb
      cases hb
      intro x hx
      cases hx
  | @produced n now saved e todo at_n =>
    obtain rfl : n = solo := Fin.eq_zero n
    have hs := h.handled at_n (origin_published e now) (Or.inl rfl)
    exact hs.of_same rfl rfl hs.tried
  | @refused n error saved e todo at_n =>
    obtain rfl : n = solo := Fin.eq_zero n
    exact h.handled at_n rfl (Or.inr ⟨e, error, rfl⟩)
  | @flush n saved at_n =>
    obtain rfl : n = solo := Fin.eq_zero n
    refine h.of_same rfl (held_flushed at_n) ?_
    intro b hb
    cases (setBatch_solo s _).symm.trans hb
    exact fun x hx => h.tried _ at_n x hx
  | @commit n saved at_n =>
    obtain rfl : n = solo := Fin.eq_zero n
    exact ordered_of_none (setBatch_solo s none)
  | @abort n b at_n =>
    obtain rfl : n = solo := Fin.eq_zero n
    exact ordered_of_none (setBatch_solo s none)
  | @die n =>
    obtain rfl : n = solo := Fin.eq_zero n
    exact ordered_of_none (setBatch_solo s none)
  | ack queued => exact h.of_same rfl rfl h.tried
  | drop => exact h.of_same rfl rfl h.tried

/-! ## Who is overtaken -/

theorem view_of_batch {s : State 1} {b : Batch} (h : s.batches solo = some b) :
    view s = applySaves b.saved s.rows := by
  simp [view, h]

/-- Same identifier, same event, up to what the relay writes. -/
theorem same_pair {e x : OutboxEvent} (h : origin e = origin x) :
    e.id = x.id ∧ e.aggregateId = x.aggregateId ∧ e.topic = x.topic ∧
      e.createdAt = x.createdAt := by
  simp only [origin, Origin.mk.injEq] at h
  exact ⟨h.1, h.2.2.1, h.2.2.2.2.1, h.2.2.2.2.2.2.2⟩

theorem older_congr {e x y : OutboxEvent} (h : origin x = origin y) :
    (Peers x e ∧ x.createdAt < e.createdAt) ↔ Peers y e ∧ y.createdAt < e.createdAt := by
  obtain ⟨_, haggregate, htopic, hcreated⟩ := same_pair h
  simp only [Peers, haggregate, htopic, hcreated]

/-- A row still PENDING for the relay: one it has tried in vain, or one it has
not tried. -/
theorem mem_view_pending {s : State 1} (coh : Coherent s) {b : Batch}
    (at_n : s.batches solo = some b) {row : OutboxEvent} (hrow : row ∈ view s)
    (pending : row.status = .pending) :
    (∃ x ∈ b.saved, origin row = origin x ∧ x.status = .pending) ∨
      row ∈ s.rows ∧ row.id ∉ b.saved.map OutboxEvent.id := by
  rw [view_of_batch at_n] at hrow
  obtain ⟨row', hrow', ⟨x, hfind, rfl⟩ | ⟨hfind, rfl⟩⟩ := mem_applySaves.mp hrow
  · have hx := Tables.find_mem hfind
    have hid : x.id = row'.id := Tables.find_key hfind
    have hsame := coh.origin_eq at_n (List.mem_append_left _ hx) hrow' hid.symm
    exact Or.inl ⟨x, hx, hsame, pending⟩
  · refine Or.inr ⟨hrow', fun hmem => ?_⟩
    obtain ⟨x, hx, hid⟩ := List.mem_map.mp hmem
    exact Tables.find_eq_none.mp hfind x hx hid

/-- A row the relay has tried, as its transaction sees it. -/
theorem saved_mem_view {s : State 1} (coh : Coherent s) {b : Batch}
    (at_n : s.batches solo = some b) {x : OutboxEvent} (hx : x ∈ b.saved) :
    ∃ row ∈ view s, origin row = origin x ∧ row.status = x.status := by
  obtain ⟨row, hrow, hsame, _⟩ := coh.row_of at_n (List.mem_append_left _ hx)
  have nodup : (b.saved.map OutboxEvent.id).Nodup :=
    (coh.events_nodup at_n).sublist ((List.sublist_append_left _ _).map _)
  have hfind : Tables.find OutboxEvent.id b.saved row.id = some x := by
    rw [(same_pair hsame).1]
    exact Tables.find_of_mem nodup hx
  refine ⟨saveTo row x, ?_, hsame, rfl⟩
  rw [view_of_batch at_n]
  exact mem_applySaves.mpr ⟨row, hrow, Or.inl ⟨x, hfind, rfl⟩⟩

/-- A PENDING row the relay has not tried is not older than its next event. -/
theorem next_le_untried {s : State 1} (h : Ordered s) {saved todo : List OutboxEvent}
    {e row : OutboxEvent} {flushed : Bool}
    (at_n : s.batches solo = some ⟨saved, e :: todo, flushed⟩) (hrow : row ∈ s.rows)
    (coh : Coherent s) (pending : row.status = .pending)
    (untried : row.id ∉ saved.map OutboxEvent.id) : e.createdAt ≤ row.createdAt := by
  have hheld : s.held solo = some ((saved ++ e :: todo).map origin) := by
    simp [State.held, at_n, Batch.origins, Batch.events]
  obtain ⟨sorted, oldest⟩ := h.sorted _ hheld
  have he : e ∈ saved ++ e :: todo := List.mem_append_right _ List.mem_cons_self
  by_cases locked : row.id ∈ ((saved ++ e :: todo).map origin).map Origin.id
  · rw [map_origin_id] at locked
    obtain ⟨x, hx, hid⟩ := List.mem_map.mp locked
    have hsame := coh.origin_eq at_n hx hrow hid.symm
    rw [(same_pair hsame).2.2.2]
    rcases List.mem_append.mp hx with hx | hx
    · exact absurd (hid ▸ List.mem_map_of_mem hx) untried
    · rw [List.pairwise_map, List.pairwise_append] at sorted
      rcases List.mem_cons.mp hx with rfl | hx
      · exact Nat.le_refl _
      · exact (List.pairwise_cons.mp sorted.2.1).1 x hx
  · have hle := oldest row hrow pending locked (origin e) (List.mem_map_of_mem he)
    exact hle

/-- The events an event overtakes are the ones that raised ahead of it. -/
theorem overtaken_iff {s : State 1} (coh : Coherent s) (h : Ordered s)
    {saved todo : List OutboxEvent} {e : OutboxEvent} {flushed : Bool}
    (at_n : s.batches solo = some ⟨saved, e :: todo, flushed⟩) (id : UUID) :
    id ∈ (overtaken s e).map OutboxEvent.id ↔
      id ∈ (raisedAhead ⟨saved, e :: todo, flushed⟩ e).map OutboxEvent.id := by
  simp only [overtaken, raisedAhead, List.mem_map, List.mem_filter, decide_eq_true_eq]
  constructor
  · rintro ⟨row, ⟨hrow, pending, older⟩, rfl⟩
    rcases mem_view_pending coh at_n hrow pending with ⟨x, hx, hsame, hstatus⟩ | ⟨hrow', untried⟩
    · exact ⟨x, ⟨hx, hstatus, (older_congr hsame).mp older⟩, (same_pair hsame).1.symm⟩
    · exact absurd older.2 (Nat.not_lt.mpr (next_le_untried h at_n hrow' coh pending untried))
  · rintro ⟨x, ⟨hx, pending, older⟩, rfl⟩
    obtain ⟨row, hrow, hsame, hstatus⟩ := saved_mem_view coh at_n hx
    exact ⟨row, ⟨hrow, hstatus.trans pending, (older_congr hsame).mpr older⟩, (same_pair hsame).1⟩

/-! ## The messages handed over -/

def OfPartition (id : UUID) (topic : String) (e : OutboxEvent) : Prop :=
  e.aggregateId = id ∧ e.topic = topic

instance (id : UUID) (topic : String) : DecidablePred (OfPartition id topic) :=
  fun _ => inferInstanceAs (Decidable (_ ∧ _))

variable {id : UUID} {topic : String}

theorem ofPartition_congr {e x : OutboxEvent} (h : origin e = origin x) :
    OfPartition id topic e ↔ OfPartition id topic x := by
  obtain ⟨_, haggregate, htopic, _⟩ := same_pair h
  simp only [OfPartition, haggregate, htopic]

/-- The messages of the partition are handed over in order, and none of its
PENDING rows is older than one of them. -/
structure Sequenced (id : UUID) (topic : String) (s : State 1) : Prop where
  sorted : (s.handed.filter (OfPartition id topic)).Pairwise
    (fun e e' => e.createdAt ≤ e'.createdAt)
  behind : ∀ e ∈ s.handed, OfPartition id topic e → ∀ row ∈ view s, row.status = .pending →
    OfPartition id topic row → e.createdAt ≤ row.createdAt
  known : ∀ e ∈ s.handed, origin e ∈ s.rows.map origin

/-- No row turns PENDING. -/
def Shrinks (s t : State 1) : Prop :=
  ∀ row ∈ view t, row.status = .pending →
    ∃ row' ∈ view s, origin row' = origin row ∧ row'.status = .pending

theorem shrinks_of_eq {s t : State 1} (h : view t = view s) : Shrinks s t :=
  fun row hrow pending => ⟨row, h ▸ hrow, rfl, pending⟩

theorem Sequenced.of_shrinks {s t : State 1} (h : Sequenced id topic s)
    (handed : t.handed = s.handed) (rows : t.rows.map origin = s.rows.map origin)
    (shrinks : Shrinks s t) : Sequenced id topic t where
  sorted := by
    rw [handed]
    exact h.sorted
  behind := by
    rw [handed]
    intro e he hpair row hrow pending hrowPair
    obtain ⟨row', hrow', hsame, pending'⟩ := shrinks row hrow pending
    have hle := h.behind e he hpair row' hrow' pending' ((ofPartition_congr hsame).mpr hrowPair)
    rw [(same_pair hsame).2.2.2] at hle
    exact hle
  known := by
    rw [handed, rows]
    exact h.known

theorem applySaves_nil (rows : List OutboxEvent) : applySaves [] rows = rows := by
  simp [applySaves]

theorem applySaves_append (saved rows rows' : List OutboxEvent) :
    applySaves saved (rows ++ rows') = applySaves saved rows ++ applySaves saved rows' := by
  simp [applySaves]

theorem untried_mem_view {s : State 1} {b : Batch} (at_n : s.batches solo = some b)
    {row : OutboxEvent} (hrow : row ∈ s.rows) (untried : row.id ∉ b.saved.map OutboxEvent.id) :
    row ∈ view s := by
  rw [view_of_batch at_n]
  refine mem_applySaves.mpr ⟨row, hrow, Or.inr ⟨?_, rfl⟩⟩
  exact Tables.find_eq_none.mpr (fun x hx hid => untried (hid ▸ List.mem_map_of_mem hx))

/-- The next event of a batch is PENDING. -/
theorem next_mem_view {s : State 1} (coh : Coherent s) {saved todo : List OutboxEvent}
    {e : OutboxEvent} {flushed : Bool}
    (at_n : s.batches solo = some ⟨saved, e :: todo, flushed⟩) :
    ∃ row ∈ view s, origin row = origin e ∧ row.status = .pending := by
  have he : e ∈ saved ++ e :: todo := List.mem_append_right _ List.mem_cons_self
  obtain ⟨row, hrow, hsame, pending⟩ := coh.row_of at_n he
  have nodup := coh.events_nodup at_n
  simp only [Batch.events, List.map_append, List.map_cons] at nodup
  have untried : row.id ∉ saved.map OutboxEvent.id := by
    rw [(same_pair hsame).1]
    intro hmem
    exact (List.nodup_append.mp nodup).2.2 e.id hmem e.id List.mem_cons_self rfl
  exact ⟨row, untried_mem_view at_n hrow untried, hsame, pending⟩

theorem shrinks_handled {s t : State 1} (coh : Coherent s) (coh' : Coherent t)
    {saved todo : List OutboxEvent} {e e' : OutboxEvent} {flushed : Bool}
    (at_n : s.batches solo = some ⟨saved, e :: todo, flushed⟩)
    (at_n' : t.batches solo = some ⟨saved ++ [e'], todo, flushed⟩) (rows : t.rows = s.rows)
    (same : origin e' = origin e) : Shrinks s t := by
  intro row hrow pending
  rcases mem_view_pending coh' at_n' hrow pending with ⟨x, hx, hsame, hstatus⟩ | ⟨hrow', untried⟩
  · rcases List.mem_append.mp hx with hx | hx
    · obtain ⟨row', hrow', hsame', hstatus'⟩ := saved_mem_view coh at_n hx
      exact ⟨row', hrow', hsame'.trans hsame.symm, hstatus'.trans hstatus⟩
    · obtain ⟨row', hrow', hsame', pending'⟩ := next_mem_view coh at_n
      rw [List.mem_singleton.mp hx] at hsame
      exact ⟨row', hrow', hsame'.trans (same.symm.trans hsame.symm), pending'⟩
  · rw [List.map_append, List.mem_append, not_or] at untried
    rw [rows] at hrow'
    exact ⟨row, untried_mem_view at_n hrow' untried.1, rfl, pending⟩

/-- A later row is behind everything handed over. -/
theorem Sequenced.insert {s : State 1} (h : Sequenced id topic s) {e : OutboxEvent}
    (latest : ∀ row ∈ s.rows, row.createdAt ≤ e.createdAt) :
    Sequenced id topic { s with rows := Tables.insert s.rows e } where
  sorted := h.sorted
  behind := by
    intro x hx hpair row hrow pending hrowPair
    have hview : row ∈ view s ∨ row.createdAt = e.createdAt := by
      cases hb : s.batches solo with
      | none =>
        have hrow' : row ∈ s.rows ++ [e] := by simpa [view, hb, Tables.insert] using hrow
        simp only [view, hb]
        exact (List.mem_append.mp hrow').imp_right
          (fun hmem => congrArg OutboxEvent.createdAt (List.mem_singleton.mp hmem))
      | some b =>
        have hrow' : row ∈ applySaves b.saved s.rows ++ applySaves b.saved [e] := by
          rw [← applySaves_append]
          simpa [view, hb, Tables.insert] using hrow
        simp only [view, hb]
        refine (List.mem_append.mp hrow').imp_right (fun hmem => ?_)
        have horigin := List.mem_map_of_mem (f := origin) hmem
        rw [applySaves_origin, List.map_singleton, List.mem_singleton] at horigin
        exact (same_pair horigin).2.2.2
    rcases hview with hview | hcreated
    · exact h.behind x hx hpair row hview pending hrowPair
    · obtain ⟨row', hrow', hsame⟩ := List.mem_map.mp (h.known x hx)
      rw [hcreated, ← (same_pair hsame).2.2.2]
      exact latest row' hrow'
  known := by
    intro x hx
    rw [Tables.insert, List.map_append]
    exact List.mem_append_left _ (h.known x hx)

/-- The older peers of `e` still PENDING are the ones whose `produce()` raised
earlier in the same batch. -/
def OvertakesOnlyRaised (s : State 1) (b : Batch) (e : OutboxEvent) : Prop :=
  (∀ id, id ∈ (overtaken s e).map OutboxEvent.id ↔ id ∈ (raisedAhead b e).map OutboxEvent.id) ∧
    ∀ x ∈ raisedAhead b e, ∃ y error, x = failed y error

/-- No older message of the partition raised in this batch and is still to be
tried again. -/
def NothingRaisedAhead (id : UUID) (topic : String) (_ : State 1) (b : Batch)
    (e : OutboxEvent) : Prop :=
  OfPartition id topic e → raisedAhead b e = []

instance (id : UUID) (topic : String) (s : State 1) (b : Batch) (e : OutboxEvent) :
    Decidable (NothingRaisedAhead id topic s b e) := inferInstanceAs (Decidable (_ → _))

theorem handsOver_next {P : State 1 → Batch → OutboxEvent → Prop} {s t : State 1} {n : Fin 1}
    {now : DateTime} {saved todo : List OutboxEvent} {e : OutboxEvent} {flushed : Bool}
    (at_n : s.batches solo = some ⟨saved, e :: todo, flushed⟩) :
    HandsOver P s (.produced n now) t ↔ P s ⟨saved, e :: todo, flushed⟩ e := by
  simp [HandsOver, at_n]

theorem overtakesOnlyRaised {s : State 1} (coh : Coherent s) (h : Ordered s)
    {saved todo : List OutboxEvent} {e : OutboxEvent} {flushed : Bool}
    (at_n : s.batches solo = some ⟨saved, e :: todo, flushed⟩) :
    OvertakesOnlyRaised s ⟨saved, e :: todo, flushed⟩ e := by
  refine ⟨overtaken_iff coh h at_n, fun x hx => ?_⟩
  simp only [raisedAhead, List.mem_filter, decide_eq_true_eq] at hx
  obtain ⟨hsaved, pending, _⟩ := hx
  rcases h.tried _ at_n x hsaved with published | raised
  · rw [pending] at published
    cases published
  · exact raised

theorem Sequenced.produced {s t : State 1} (h : Sequenced id topic s) (coh : Coherent s)
    (ordered : Ordered s) {saved todo : List OutboxEvent} {e : OutboxEvent} {flushed : Bool}
    (at_n : s.batches solo = some ⟨saved, e :: todo, flushed⟩) (shrinks : Shrinks s t)
    (rows : t.rows = s.rows) (handed : t.handed = s.handed ++ [e])
    (clear : NothingRaisedAhead id topic s ⟨saved, e :: todo, flushed⟩ e) :
    Sequenced id topic t where
  sorted := by
    rw [handed, List.filter_append]
    refine List.pairwise_append.mpr ⟨h.sorted, (List.pairwise_singleton _ _).filter _, ?_⟩
    intro x hx y hy
    obtain ⟨hy, hpair⟩ := List.mem_filter.mp hy
    rw [List.mem_singleton.mp hy] at hpair ⊢
    obtain ⟨hx, hxpair⟩ := List.mem_filter.mp hx
    obtain ⟨row, hrow, hsame, pending⟩ := next_mem_view coh at_n
    rw [← (same_pair hsame).2.2.2]
    exact h.behind x hx (of_decide_eq_true hxpair) row hrow pending
      ((ofPartition_congr hsame).mpr (of_decide_eq_true hpair))
  behind := by
    rw [handed]
    intro x hx hpair row hrow pending hrowPair
    obtain ⟨row', hrow', hsame, pending'⟩ := shrinks row hrow pending
    have hrowPair' := (ofPartition_congr hsame).mpr hrowPair
    rw [← (same_pair hsame).2.2.2]
    rcases List.mem_append.mp hx with hx | hx
    · exact h.behind x hx hpair row' hrow' pending' hrowPair'
    · rw [List.mem_singleton.mp hx] at hpair ⊢
      -- a row left behind would be overtaken, hence have raised ahead
      refine Nat.not_lt.mp (fun hlt => ?_)
      have hmem : row' ∈ overtaken s e := by
        refine List.mem_filter.mpr ⟨hrow', decide_eq_true ⟨pending', ?_, hlt⟩⟩
        exact ⟨hrowPair'.1.trans hpair.1.symm, hrowPair'.2.trans hpair.2.symm⟩
      have hraised := (overtaken_iff coh ordered at_n row'.id).mp (List.mem_map_of_mem hmem)
      rw [clear hpair] at hraised
      cases hraised
  known := by
    rw [handed, rows]
    intro x hx
    rcases List.mem_append.mp hx with hx | hx
    · exact h.known x hx
    · rw [List.mem_singleton.mp hx]
      have he : e ∈ saved ++ e :: todo := List.mem_append_right _ List.mem_cons_self
      obtain ⟨row, hrow, hsame, _⟩ := coh.row_of at_n he
      exact hsame ▸ List.mem_map_of_mem hrow

theorem sequenced_step {s t : State 1} {a : Action 1} (coh : Coherent s) (ordered : Ordered s)
    (h : Sequenced id topic s) (hst : step s a = some t) (inOrder : InOrder s a t)
    (noRollback : NoRollback s a t) (clear : HandsOver (NothingRaisedAhead id topic) s a t) :
    Sequenced id topic t := by
  have coh' := coherent s a t coh hst
  cases step_sound hst with
  | insert fresh new => exact h.insert inOrder
  | idle at_n none_left => exact h
  | @select n tie events at_n selected =>
    obtain rfl : n = solo := Fin.eq_zero n
    refine h.of_shrinks rfl rfl (shrinks_of_eq ?_)
    rw [view_of_batch (setBatch_solo s _), applySaves_nil]
    simp [view, at_n, State.setBatch]
  | @produced n now saved e todo at_n =>
    obtain rfl : n = solo := Fin.eq_zero n
    exact h.produced coh ordered at_n
      (shrinks_handled coh coh' at_n (setBatch_solo s _) rfl rfl) rfl rfl
      ((handsOver_next at_n).mp clear)
  | @refused n error saved e todo at_n =>
    obtain rfl : n = solo := Fin.eq_zero n
    exact h.of_shrinks rfl rfl (shrinks_handled coh coh' at_n (setBatch_solo s _) rfl rfl)
  | @flush n saved at_n =>
    obtain rfl : n = solo := Fin.eq_zero n
    refine h.of_shrinks rfl rfl (shrinks_of_eq ?_)
    rw [view_of_batch (setBatch_solo s _), view_of_batch at_n]
    rfl
  | @commit n saved at_n =>
    obtain rfl : n = solo := Fin.eq_zero n
    refine h.of_shrinks rfl (applySaves_origin saved s.rows) (shrinks_of_eq ?_)
    rw [view_of_batch at_n]
    simp [view, State.setBatch]
  | abort at_n => exact noRollback.elim
  | die => exact noRollback.elim
  | ack queued => exact h.of_shrinks rfl rfl (shrinks_of_eq rfl)
  | drop => exact h.of_shrinks rfl rfl (shrinks_of_eq rfl)

/-- Along any run of one relay whose rows arrive in order, a message overtakes
exactly the older messages of its partition that raised ahead of it; and a
partition on which that does not happen is handed over in `created_at` order. -/
theorem overtakes_only_raised (as : List (Action 1)) (inOrder : Runs.Steps step InOrder init as) :
    Runs.Steps step (HandsOver OvertakesOnlyRaised) init as ∧
      ∀ id topic, Runs.Steps step NoRollback init as →
        Runs.Steps step (HandsOver (NothingRaisedAhead id topic)) init as →
        ∀ s, Runs.run step init as = some s →
          (s.handed.filter (OfPartition id topic)).Pairwise
            (fun e e' => e.createdAt ≤ e'.createdAt) := by
  constructor
  · refine Runs.steps_of_steps coherent (P := Ordered) ?_ ?_ coherent_init (ordered_of_none rfl)
      inOrder
    · exact fun s a t coh h hst ok => ordered_step coh h hst ok
    · intro s a t coh h hst _
      cases step_sound hst with
      | @produced n now saved e todo at_n =>
        obtain rfl : n = solo := Fin.eq_zero n
        exact (handsOver_next at_n).mpr (overtakesOnlyRaised coh h at_n)
      | _ => trivial
  · intro id topic noRollback clear s hrun
    have hsteps := Runs.steps_and inOrder (Runs.steps_and noRollback clear)
    have hall := Runs.always_of_steps coherent (P := fun s => Ordered s ∧ Sequenced id topic s)
      ?_ coherent_init ⟨ordered_of_none rfl, List.Pairwise.nil, ?_, ?_⟩ hsteps
    · exact (hall.last hrun).2.sorted
    · intro s a t coh h hst ok
      exact ⟨ordered_step coh h.1 hst ok.1, sequenced_step coh h.1 h.2 hst ok.1 ok.2.1 ok.2.2⟩
    · intro e he
      cases he
    · intro e he
      cases he

/-- The broker's queue is full at the second of two status changes of a claim. -/
def secondRaises : List (Action 1) :=
  [.insert (exampleEvent 1 0), .insert (exampleEvent 2 1), .select solo (fun _ => 0),
    .produced solo (exampleInstant 11 0), .refused solo "queue full", .flush solo, .commit solo,
    .select solo (fun _ => 0), .produced solo (exampleInstant 11 0)]

theorem secondRaises_in_order :
    Runs.Steps step (HandsOver OvertakesOnlyRaised) init secondRaises ∧
      ∃ s, Runs.run step init secondRaises = some s ∧
        (s.handed.filter (OfPartition ⟨7⟩ "claim.status_changed")).Pairwise
          (fun e e' => e.createdAt ≤ e'.createdAt) := by
  obtain ⟨overtaken, sorted⟩ := overtakes_only_raised secondRaises (by decide)
  refine ⟨overtaken, _, rfl, ?_⟩
  exact sorted ⟨7⟩ "claim.status_changed" (by decide) (by decide) _ rfl

/-- It is full at the first one only. -/
def firstRaises : List (Action 1) :=
  [.insert (exampleEvent 1 0), .insert (exampleEvent 2 1), .select solo (fun _ => 0),
    .refused solo "queue full", .produced solo (exampleInstant 11 0), .flush solo, .commit solo,
    .select solo (fun _ => 0), .produced solo (exampleInstant 11 0)]

theorem firstRaises_overtaken : Runs.Steps step InOrder init firstRaises ∧
    ¬ Runs.Steps step (HandsOver OvertakesNothing) init firstRaises ∧
    (Runs.run step init firstRaises).map (fun s => s.handed.map OutboxEvent.createdAt) =
      some [(exampleEvent 2 1).createdAt, (exampleEvent 1 0).createdAt] :=
  ⟨by decide, by decide, by rfl⟩

end RelayOrder
