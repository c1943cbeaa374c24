import RiskCore.OutboxRelay

/-!
# PUBLISHED and acknowledged

A row is saved as PUBLISHED when its `produce()` has returned, and the batch
commits whatever `flush` has left in the queue. PUBLISHED means acknowledged
exactly in the runs in which every batch happens to commit after the broker has
acknowledged all it handed over.
-/

namespace RelayDelivery

open Values Outbox OutboxRelay

variable {k : Nat}

def AckedWhenPublished (s : State k) : Prop :=
  ∀ row ∈ s.rows, row.status = .published → message row ∈ s.acked

theorem ackedWhenPublished_of_map {s : State k} (h : s.rows.map message = s.acked) :
    AckedWhenPublished s := by
  intro row hrow _
  rw [← h]
  exact List.mem_map_of_mem hrow

/-- A batch commits when every message it has handed over is acknowledged. -/
def CommitsAcked (s : State k) (a : Action k) (_ : State k) : Prop :=
  ∀ n b, a = .commit n → s.batches n = some b →
    ∀ e ∈ b.saved, e.status = .published → message e ∈ s.acked

/-- The table after a commit is fine iff the rows the commit turns PUBLISHED are. -/
theorem commit_iff {s : State k} (h : Coherent s) (hp : AckedWhenPublished s) {n : Fin k}
    {saved : List OutboxEvent} (at_n : s.batches n = some ⟨saved, [], true⟩) :
    (∀ row ∈ applySaves saved s.rows, row.status = .published → message row ∈ s.acked) ↔
      ∀ e ∈ saved, e.status = .published → message e ∈ s.acked := by
  have hevents : (Batch.mk saved [] true).events = saved := List.append_nil saved
  have nodup := h.events_nodup at_n
  rw [hevents] at nodup
  constructor
  · intro hall e he hstatus
    obtain ⟨row, hrow, hsame, _⟩ := h.row_of at_n (hevents.symm ▸ he)
    have hid : row.id = e.id := congrArg Origin.id hsame
    have hfind : Tables.find OutboxEvent.id saved row.id = some e := by
      rw [hid]
      exact Tables.find_of_mem nodup he
    have hsaved : saveTo row e ∈ applySaves saved s.rows :=
      mem_applySaves.mpr ⟨row, hrow, Or.inl ⟨e, hfind, rfl⟩⟩
    rw [← message_congr ((origin_saveTo row e).trans hsame)]
    exact hall _ hsaved hstatus
  · intro hall row' hrow' hstatus
    obtain ⟨row, hrow, ⟨e, hfind, rfl⟩ | ⟨_, rfl⟩⟩ := mem_applySaves.mp hrow'
    · have he := Tables.find_mem hfind
      have hkey : e.id = row.id := Tables.find_key hfind
      have hsame := h.origin_eq at_n (hevents.symm ▸ he) hrow hkey.symm
      rw [message_congr ((origin_saveTo row e).trans hsame)]
      exact hall e he hstatus
    · exact hp row' hrow hstatus

theorem step_acked_iff {s t : State k} {a : Action k} (h : Coherent s)
    (hp : AckedWhenPublished s) (hst : step s a = some t) :
    AckedWhenPublished t ↔ CommitsAcked s a t := by
  cases step_sound hst with
  | @commit n saved at_n =>
    refine (commit_iff h hp at_n).trans ⟨?_, ?_⟩
    · intro hall m b ha hm
      cases ha
      cases at_n.symm.trans hm
      exact hall
    · exact fun hC => hC n _ rfl at_n
  | @insert e fresh new =>
    refine iff_of_true ?_ (by intro n b ha; cases ha)
    intro row hrow hstatus
    rcases List.mem_append.mp hrow with hrow | hrow
    · exact hp row hrow hstatus
    · rw [List.mem_singleton.mp hrow, fresh.1] at hstatus
      cases hstatus
  | ack queued =>
    refine iff_of_true ?_ (by intro n b ha; cases ha)
    exact fun row hrow hstatus => List.mem_append_left _ (hp row hrow hstatus)
  | _ => exact iff_of_true hp (by intro n b ha; cases ha)

/-- In every state of a run, with any number of relays, a PUBLISHED row carries
an acknowledged message iff in this run every batch commits with all it has
handed over acknowledged. -/
theorem published_acked_iff_commits_acked (as : List (Action k)) :
    Runs.Always step AckedWhenPublished init as ↔ Runs.Steps step CommitsAcked init as := by
  refine Runs.always_iff_steps coherent ?_ coherent_init ?_
  · exact fun s a t h hp hst => step_acked_iff h hp hst
  · intro row hrow
    cases hrow

/-- The broker is away: the flush ends with the message still queued. -/
def flushTimesOut : List (Action 1) :=
  [.insert (exampleEvent 1 0), .select solo (fun _ => 0),
    .produced solo (exampleInstant 10 1), .flush solo, .commit solo]

theorem flushTimesOut_published : ¬ Runs.Always step AckedWhenPublished init flushTimesOut := by
  refine Runs.not_always_of_run (f := fun s => some (s.rows.map OutboxEvent.status, s.acked))
    (b := ([.published], [])) rfl (fun s hend hall => ?_)
  obtain ⟨hstatus, hacked⟩ := Prod.mk.inj (Option.some.inj hend)
  obtain ⟨row, hrow, hpublished⟩ : ∃ row ∈ s.rows, row.status = .published :=
    List.mem_map.mp (hstatus ▸ List.mem_singleton_self _)
  have hmem := hall row hrow hpublished
  rw [hacked] at hmem
  cases hmem

end RelayDelivery
