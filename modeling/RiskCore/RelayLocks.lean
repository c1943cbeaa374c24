import RiskCore.OutboxRelay

/-!
# Parallel relays and their locks

`k` relay processes over one table, with `SELECT ... FOR UPDATE SKIP LOCKED`
taken apart: the statement fixes its rows and their order on a snapshot, and
comes to them one by one afterwards. A row another open transaction holds is
skipped, and a row that has changed since is taken in its new version if it is
still PENDING. Whatever happens in between, a row is handed over once, plus once
for every batch that was rolled back after handing it over.
-/

namespace RelayLocks

open Values Outbox OutboxRelay

/-- Where a relay is in `_process_batch`. `locking` is the statement under way:
the rows of its snapshot it has still to come to, and those it holds. -/
inductive Phase where
  | idle
  | locking (ahead held : List OutboxEvent)
  | working (batch : Batch)

/-- `rows` is the committed table, `handed` the history of the `produce()` calls
that returned. -/
structure State (k : Nat) where
  rows : List OutboxEvent
  phases : Fin k → Phase
  handed : List OutboxEvent

/-- `snapshot`, `lock` and `selected` are the start, the rows and the end of the
statement; the rest is as for atomic statements. -/
inductive Action (k : Nat) where
  | insert (e : OutboxEvent)
  | snapshot (n : Fin k) (tie : UUID → Nat)
  | lock (n : Fin k)
  | selected (n : Fin k)
  | produced (n : Fin k) (now : DateTime)
  | refused (n : Fin k) (error : String)
  | flush (n : Fin k)
  | commit (n : Fin k)
  | abort (n : Fin k)
  | die (n : Fin k)

variable {k : Nat}

/-- The rows a relay holds locked. -/
def Phase.held : Phase → List OutboxEvent
  | .idle => []
  | .locking _ held => held
  | .working b => b.events

def State.lockedFor (s : State k) (n : Fin k) (id : UUID) : Bool :=
  (List.finRange k).any (fun m => m ≠ n && id ∈ (s.phases m).held.map OutboxEvent.id)

def State.put (s : State k) (n : Fin k) (p : Phase) : State k :=
  { s with phases := Function.update s.phases n p }

def init : State k := ⟨[], fun _ => .idle, []⟩

/-- The row as `FOR UPDATE SKIP LOCKED` takes it, or nothing when it is skipped. -/
def State.take (s : State k) (n : Fin k) (e : OutboxEvent) : List OutboxEvent :=
  if s.lockedFor n e.id then []
  else (Tables.find OutboxEvent.id s.rows e.id).toList.filter (fun row => row.status = .pending)

def step (s : State k) : Action k → Option (State k)
  | .insert e =>
    if isFresh e ∧ Tables.find OutboxEvent.id s.rows e.id = none then
      some { s with rows := Tables.insert s.rows e }
    else none
  | .snapshot n tie =>
    match s.phases n with
    | .idle =>
      some (s.put n (.locking
        ((s.rows.filter (fun e => e.status = .pending)).insertionSort (Before tie)) []))
    | _ => none
  | .lock n =>
    match s.phases n with
    | .locking (e :: ahead) held =>
      if held.length < batchSize then some (s.put n (.locking ahead (held ++ s.take n e)))
      else none
    | _ => none
  | .selected n =>
    match s.phases n with
    | .locking ahead held =>
      if ahead = [] ∨ held.length = batchSize then
        some (s.put n (if held = [] then .idle else .working ⟨[], held, false⟩))
      else none
    | _ => none
  | .produced n now =>
    match s.phases n with
    | .working ⟨saved, e :: todo, false⟩ =>
      some { s.put n (.working ⟨saved ++ [published e now], todo, false⟩) with
        handed := s.handed ++ [e] }
    | _ => none
  | .refused n error =>
    match s.phases n with
    | .working ⟨saved, e :: todo, false⟩ =>
      some (s.put n (.working ⟨saved ++ [failed e error], todo, false⟩))
    | _ => none
  | .flush n =>
    match s.phases n with
    | .working ⟨saved, [], false⟩ => some (s.put n (.working ⟨saved, [], true⟩))
    | _ => none
  | .commit n =>
    match s.phases n with
    | .working ⟨saved, [], true⟩ => some { s.put n .idle with rows := applySaves saved s.rows }
    | _ => none
  | .abort n =>
    match s.phases n with
    | .idle => none
    | _ => some (s.put n .idle)
  | .die n => some (s.put n .idle)

/-- What one step can do, case by case. -/
inductive Step (s : State k) : Action k → State k → Prop where
  | insert {e} (fresh : isFresh e) (new : Tables.find OutboxEvent.id s.rows e.id = none) :
      Step s (.insert e) { s with rows := Tables.insert s.rows e }
  | snapshot {n tie} (at_n : s.phases n = .idle) :
      Step s (.snapshot n tie) (s.put n (.locking
        ((s.rows.filter (fun e => e.status = .pending)).insertionSort (Before tie)) []))
  | lock {n e ahead held} (at_n : s.phases n = .locking (e :: ahead) held) :
      Step s (.lock n) (s.put n (.locking ahead (held ++ s.take n e)))
  | nothing {n ahead} (at_n : s.phases n = .locking ahead []) :
      Step s (.selected n) (s.put n .idle)
  | selected {n ahead held} (at_n : s.phases n = .locking ahead held) :
      Step s (.selected n) (s.put n (.working ⟨[], held, false⟩))
  | produced {n now saved e todo} (at_n : s.phases n = .working ⟨saved, e :: todo, false⟩) :
      Step s (.produced n now)
        { s.put n (.working ⟨saved ++ [published e now], todo, false⟩) with
          handed := s.handed ++ [e] }
  | refused {n error saved e todo} (at_n : s.phases n = .working ⟨saved, e :: todo, false⟩) :
      Step s (.refused n error) (s.put n (.working ⟨saved ++ [failed e error], todo, false⟩))
  | flush {n saved} (at_n : s.phases n = .working ⟨saved, [], false⟩) :
      Step s (.flush n) (s.put n (.working ⟨saved, [], true⟩))
  | commit {n saved} (at_n : s.phases n = .working ⟨saved, [], true⟩) :
      Step s (.commit n) { s.put n .idle with rows := applySaves saved s.rows }
  | abort {n} : Step s (.abort n) (s.put n .idle)
  | die {n} : Step s (.die n) (s.put n .idle)

theorem step_sound {s t : State k} {a : Action k} (h : step s a = some t) : Step s a t := by
  cases a with
  | insert e =>
    simp only [step] at h
    split at h
    · rename_i ok
      cases h
      exact .insert ok.1 ok.2
    · cases h
  | snapshot n tie =>
    simp only [step] at h
    split at h
    · rename_i at_n
      cases h
      exact .snapshot at_n
    · cases h
  | lock n =>
    simp only [step] at h
    split at h
    · rename_i at_n
      split at h
      · cases h
        exact .lock at_n
      · cases h
    · cases h
  | selected n =>
    simp only [step] at h
    split at h
    · rename_i ahead held at_n
      split at h
      · cases h
        by_cases none_held : held = []
        · subst none_held
          exact .nothing at_n
        · rw [if_neg none_held]
          exact .selected at_n
      · cases h
    · cases h
  | produced n now =>
    simp only [step] at h
    split at h
    · rename_i at_n
      cases h
      exact .produced at_n
    · cases h
  | refused n error =>
    simp only [step] at h
    split at h
    · rename_i at_n
      cases h
      exact .refused at_n
    · cases h
  | flush n =>
    simp only [step] at h
    split at h
    · rename_i at_n
      cases h
      exact .flush at_n
    · cases h
  | commit n =>
    simp only [step] at h
    split at h
    · rename_i at_n
      cases h
      exact .commit at_n
    · cases h
  | abort n =>
    simp only [step] at h
    split at h
    · cases h
    · cases h
      exact .abort
  | die n =>
    cases h
    exact .die

/-! ## The invariant of the locks -/

def Phase.ids (p : Phase) : List UUID := p.held.map OutboxEvent.id

/-- The rows a relay holds and, while it selects, those it may still come to. -/
def Phase.claimed : Phase → List UUID
  | .locking ahead held => (held ++ ahead).map OutboxEvent.id
  | p => p.ids

structure Coherent (s : State k) : Prop where
  ids : (s.rows.map OutboxEvent.id).Nodup
  distinct : ∀ n, (s.phases n).claimed.Nodup
  ready : ∀ n, ∀ id ∈ (s.phases n).ids, ∃ row ∈ s.rows, row.id = id ∧ row.status = .pending
  apart : ∀ n m, n ≠ m → ∀ id ∈ (s.phases n).ids, id ∉ (s.phases m).ids

@[simp] theorem put_self (s : State k) (n : Fin k) (p : Phase) : (s.put n p).phases n = p := by
  simp [State.put]

@[simp] theorem put_other (s : State k) {n m : Fin k} (p : Phase) (h : m ≠ n) :
    (s.put n p).phases m = s.phases m := by
  simp [State.put, h]

theorem lockedFor_iff {s : State k} {n : Fin k} {id : UUID} :
    s.lockedFor n id = true ↔ ∃ m, m ≠ n ∧ id ∈ (s.phases m).ids := by
  simp [State.lockedFor, Phase.ids]

/-- What `take` yields is one PENDING row nobody else holds. -/
theorem mem_take {s : State k} {n : Fin k} {e row : OutboxEvent} (h : row ∈ s.take n e) :
    s.take n e = [row] ∧ row ∈ s.rows ∧ row.id = e.id ∧ row.status = .pending ∧
      ∀ m, m ≠ n → e.id ∉ (s.phases m).ids := by
  by_cases locked : s.lockedFor n e.id = true
  · rw [State.take, if_pos locked] at h
    cases h
  · rw [State.take, if_neg locked] at h ⊢
    obtain ⟨hfound, hpending⟩ := List.mem_filter.mp h
    have hfind := Option.mem_toList.mp hfound
    refine ⟨?_, Tables.find_mem hfind, Tables.find_key hfind, of_decide_eq_true hpending, ?_⟩
    · rw [Option.mem_def.mp hfind]
      exact List.filter_cons_of_pos hpending
    · exact fun m hm hid => locked (lockedFor_iff.mpr ⟨m, hm, hid⟩)

/-- A relay may go on to any phase that holds distinct, free, PENDING rows. -/
theorem Coherent.put {s : State k} (h : Coherent s) (n : Fin k) {p : Phase}
    (distinct : p.claimed.Nodup)
    (holds : ∀ id ∈ p.ids, (∃ row ∈ s.rows, row.id = id ∧ row.status = .pending) ∧
      ∀ m, m ≠ n → id ∉ (s.phases m).ids) : Coherent (s.put n p) where
  ids := h.ids
  distinct := by
    intro m
    by_cases hm : m = n
    · subst m
      rw [put_self]
      exact distinct
    · rw [put_other s p hm]
      exact h.distinct m
  ready := by
    intro m id hid
    by_cases hm : m = n
    · subst m
      rw [put_self] at hid
      exact (holds id hid).1
    · rw [put_other s p hm] at hid
      exact h.ready m id hid
  apart := by
    intro m m' hne id hid hid'
    by_cases hm : m = n
    · subst m
      rw [put_self] at hid
      rw [put_other s p (Ne.symm hne)] at hid'
      exact (holds id hid).2 m' (Ne.symm hne) hid'
    · rw [put_other s p hm] at hid
      by_cases hm' : m' = n
      · subst m'
        rw [put_self] at hid'
        exact (holds id hid').2 m hm hid
      · rw [put_other s p hm'] at hid'
        exact h.apart m m' hne id hid hid'

/-- Going on with the rows it has, or with fewer. -/
theorem Coherent.keep {s : State k} (h : Coherent s) (n : Fin k) {p : Phase}
    (distinct : p.claimed.Nodup) (sub : ∀ id ∈ p.ids, id ∈ (s.phases n).ids) :
    Coherent (s.put n p) :=
  h.put n distinct (fun id hid =>
    ⟨h.ready n id (sub id hid), fun m hm => h.apart n m (Ne.symm hm) id (sub id hid)⟩)

theorem Coherent.release {s : State k} (h : Coherent s) (n : Fin k) :
    Coherent (s.put n .idle) :=
  h.keep n List.nodup_nil (fun id hid => by cases hid)

theorem working_ids {s : State k} {n : Fin k} {b : Batch} (at_n : s.phases n = .working b) :
    (s.phases n).ids = b.events.map OutboxEvent.id := by
  rw [at_n]
  rfl

theorem Coherent.batch_nodup {s : State k} (h : Coherent s) {n : Fin k} {b : Batch}
    (at_n : s.phases n = .working b) : (b.events.map OutboxEvent.id).Nodup := by
  have hdistinct := h.distinct n
  rw [at_n] at hdistinct
  exact hdistinct

/-- Handing an event over changes what will be saved, not what is held. -/
theorem Coherent.handled {s : State k} (h : Coherent s) {n : Fin k} {saved todo : List OutboxEvent}
    {e e' : OutboxEvent} (at_n : s.phases n = .working ⟨saved, e :: todo, false⟩)
    (same : e'.id = e.id) : Coherent (s.put n (.working ⟨saved ++ [e'], todo, false⟩)) := by
  have hevents : (Batch.mk (saved ++ [e']) todo false).events.map OutboxEvent.id =
      (Batch.mk saved (e :: todo) false).events.map OutboxEvent.id := by
    simp [Batch.events, same]
  refine h.keep n ?_ ?_
  · have hnodup := h.batch_nodup at_n
    rw [← hevents] at hnodup
    exact hnodup
  · intro id hid
    rw [working_ids at_n, ← hevents]
    exact hid

/-- A batch that commits saves rows nobody else holds. -/
theorem Coherent.commit {s : State k} (h : Coherent s) {n : Fin k} {saved : List OutboxEvent}
    (at_n : s.phases n = .working ⟨saved, [], true⟩) :
    Coherent { s.put n .idle with rows := applySaves saved s.rows } := by
  have hreleased := h.release n
  refine ⟨?_, hreleased.distinct, ?_, hreleased.apart⟩
  · rw [applySaves_id]
    exact h.ids
  · intro m id hid
    by_cases hm : m = n
    · change id ∈ ((s.put n .idle).phases m).ids at hid
      rw [hm, put_self] at hid
      cases hid
    · change id ∈ ((s.put n .idle).phases m).ids at hid
      rw [put_other s _ hm] at hid
      obtain ⟨row, hrow, rfl, hpending⟩ := h.ready m id hid
      refine ⟨row, mem_applySaves.mpr ⟨row, hrow, Or.inr ⟨?_, rfl⟩⟩, rfl, hpending⟩
      refine Tables.find_eq_none.mpr (fun e he heq => ?_)
      refine h.apart n m (Ne.symm hm) row.id ?_ hid
      rw [working_ids at_n, ← heq]
      exact List.mem_map_of_mem (List.mem_append_left _ he)

theorem coherent_init : Coherent (init : State k) where
  ids := List.nodup_nil
  distinct := fun _ => List.nodup_nil
  ready := by
    intro n id hid
    cases hid
  apart := by
    intro n m _ id hid
    cases hid

theorem coherent : Runs.Inductive (step (k := k)) Coherent := by
  intro s a t h hst
  cases step_sound hst with
  | @insert e fresh new =>
    refine ⟨Tables.insert_nodup h.ids new, h.distinct, ?_, h.apart⟩
    intro n id hid
    obtain ⟨row, hrow, hrest⟩ := h.ready n id hid
    exact ⟨row, List.mem_append_left _ hrow, hrest⟩
  | @snapshot n tie at_n =>
    refine h.put n ?_ (fun id hid => by cases hid)
    have hfiltered := h.ids.sublist ((List.filter_sublist (l := s.rows)
      (p := fun e => e.status = .pending)).map OutboxEvent.id)
    exact ((List.perm_insertionSort (Before tie) _).map OutboxEvent.id).nodup_iff.mpr hfiltered
  | @lock n e ahead held at_n =>
    have hdistinct := h.distinct n
    have hheld : (s.phases n).ids = held.map OutboxEvent.id := by
      rw [at_n]
      rfl
    rw [at_n] at hdistinct
    -- the row taken, if any, has the identifier of the row come to
    have hsub : ((s.take n e).map OutboxEvent.id).Sublist [e.id] := by
      cases htake : s.take n e with
      | nil => exact List.nil_sublist _
      | cons row rest =>
        obtain ⟨hone, _, hid, _⟩ := mem_take (htake ▸ List.mem_cons_self : row ∈ s.take n e)
        rw [← htake, hone, List.map_singleton, hid]
    refine h.put n ?_ ?_
    · refine List.Nodup.sublist ?_ hdistinct
      simp only [Phase.claimed, List.map_append, List.map_cons, List.append_assoc]
      exact List.Sublist.append (List.Sublist.refl _) (hsub.append (List.Sublist.refl _))
    · intro id hid
      simp only [Phase.ids, Phase.held, List.map_append, List.mem_append] at hid
      rcases hid with hid | hid
      · rw [← hheld] at hid
        exact ⟨h.ready n id hid, fun m hm => h.apart n m (Ne.symm hm) id hid⟩
      · obtain ⟨row, htake, rfl⟩ := List.mem_map.mp hid
        obtain ⟨_, hrow, hsame, hpending, free⟩ := mem_take htake
        refine ⟨⟨row, hrow, rfl, hpending⟩, ?_⟩
        rw [hsame]
        exact free
  | nothing at_n => exact h.release _
  | @selected n ahead held at_n =>
    have hdistinct := h.distinct n
    rw [at_n] at hdistinct
    refine h.keep n ?_ ?_
    · exact hdistinct.sublist ((List.sublist_append_left held ahead).map OutboxEvent.id)
    · intro id hid
      rw [at_n]
      exact hid
  | @produced n now saved e todo at_n =>
    have hhandled : Coherent (s.put n (.working ⟨saved ++ [published e now], todo, false⟩)) :=
      h.handled at_n rfl
    exact ⟨hhandled.ids, hhandled.distinct, hhandled.ready, hhandled.apart⟩
  | refused at_n => exact h.handled at_n rfl
  | @flush n saved at_n =>
    have hdistinct := h.batch_nodup at_n
    refine h.keep n hdistinct (fun id hid => ?_)
    rw [at_n]
    exact hid
  | commit at_n => exact h.commit at_n
  | abort => exact h.release _
  | die => exact h.release _

/-! ## How often a row is handed over -/

/-- No row is in two open batches. -/
def Apart (s : State k) : Prop :=
  ∀ n m, n ≠ m → ∀ id ∈ (s.phases n).ids, id ∉ (s.phases m).ids

/-- The event a step passes to `produce()`, whether that returns or raises. -/
def passed (s : State k) : Action k → Option OutboxEvent
  | .produced n _ | .refused n _ =>
    match s.phases n with
    | .working b => b.todo.head?
    | _ => none
  | _ => none

/-- The successful `produce()` calls for a row. -/
def handedOver (s : State k) (id : UUID) : Nat := s.handed.countP (fun e => e.id = id)

/-- The batch has produced the row. -/
def Phase.produced (p : Phase) (id : UUID) : Bool :=
  match p with
  | .working b => b.saved.any (fun e => e.id = id ∧ e.status = .published)
  | _ => false

/-- The step rolls back a batch that has produced the row. -/
def rollsBack (id : UUID) (s : State k) : Action k → Bool
  | .abort n | .die n => (s.phases n).produced id
  | _ => false

/-- The batches of a run that are rolled back after producing the row. -/
def rollbacks (id : UUID) : State k → List (Action k) → Nat
  | _, [] => 0
  | s, a :: as => (if rollsBack id s a then 1 else 0) +
      match step s a with
      | some t => rollbacks id t as
      | none => 0

/-- The row is PUBLISHED in the table, or an open batch will make it so. -/
def Out (s : State k) (id : UUID) : Prop :=
  (∃ row ∈ s.rows, row.id = id ∧ row.status = .published) ∨ ∃ n, (s.phases n).produced id = true

theorem produced_iff {b : Batch} {id : UUID} : (Phase.working b).produced id = true ↔
    ∃ e ∈ b.saved, e.id = id ∧ e.status = .published := by
  simp [Phase.produced]

theorem Coherent.row_pending {s : State k} (h : Coherent s) {n : Fin k} {row : OutboxEvent}
    (hrow : row ∈ s.rows) (hid : row.id ∈ (s.phases n).ids) : row.status = .pending := by
  obtain ⟨row', hrow', hsame, hpending⟩ := h.ready n row.id hid
  rw [List.inj_on_of_nodup_map h.ids hrow hrow' hsame.symm]
  exact hpending

/-- A row that has left PENDING is held by nobody. -/
theorem settled_kept {s t : State k} {a : Action k} (h : Coherent s) (hst : step s a = some t)
    {row : OutboxEvent} (hrow : row ∈ s.rows) (settled : row.status ≠ .pending) :
    row ∈ t.rows := by
  cases step_sound hst with
  | insert fresh new => exact List.mem_append_left _ hrow
  | @commit n saved at_n =>
    refine mem_applySaves.mpr ⟨row, hrow, Or.inr ⟨?_, rfl⟩⟩
    refine Tables.find_eq_none.mpr (fun e he hid => settled (h.row_pending (n := n) hrow ?_))
    rw [working_ids at_n, ← hid]
    exact List.mem_map_of_mem (List.mem_append_left _ he)
  | _ => exact hrow

theorem passed_held {s : State k} {a : Action k} {e : OutboxEvent} (h : passed s a = some e) :
    ∃ n, e.id ∈ (s.phases n).ids := by
  have todo : ∀ n b, s.phases n = .working b → b.todo.head? = some e →
      ∃ n, e.id ∈ (s.phases n).ids := by
    intro n b at_n hhead
    refine ⟨n, ?_⟩
    rw [working_ids at_n]
    exact List.mem_map_of_mem (List.mem_append_right _ (List.mem_of_mem_head? hhead))
  cases a with
  | produced n now =>
    simp only [passed] at h
    split at h
    · rename_i b at_n
      exact todo n b at_n h
    · cases h
  | refused n error =>
    simp only [passed] at h
    split at h
    · rename_i b at_n
      exact todo n b at_n h
    · cases h
  | _ => cases h

theorem not_passed {s : State k} {a : Action k} (h : Coherent s) {row e : OutboxEvent}
    (hrow : row ∈ s.rows) (settled : row.status ≠ .pending) (hpassed : passed s a = some e) :
    e.id ≠ row.id := by
  intro hid
  obtain ⟨n, hn⟩ := passed_held hpassed
  rw [hid] at hn
  exact settled (h.row_pending hrow hn)

/-- An event about to be handed over is not out yet. -/
theorem not_out {s : State k} (h : Coherent s) {n : Fin k} {saved todo : List OutboxEvent}
    {e : OutboxEvent} (at_n : s.phases n = .working ⟨saved, e :: todo, false⟩) : ¬ Out s e.id := by
  have held : e.id ∈ (s.phases n).ids := by
    rw [working_ids at_n]
    exact List.mem_map_of_mem (List.mem_append_right _ List.mem_cons_self)
  rintro (⟨row, hrow, hid, hstatus⟩ | ⟨m, hm⟩)
  · have hpending := h.row_pending hrow (hid ▸ held)
    rw [hstatus] at hpending
    cases hpending
  · by_cases hmn : m = n
    · rw [hmn, at_n, produced_iff] at hm
      obtain ⟨x, hx, hid, _⟩ := hm
      have hnodup := h.batch_nodup at_n
      simp only [Batch.events, List.map_append, List.map_cons] at hnodup
      exact (List.nodup_append.mp hnodup).2.2 x.id (List.mem_map_of_mem hx) e.id
        List.mem_cons_self hid
    · cases hp : s.phases m with
      | working b =>
        rw [hp, produced_iff] at hm
        obtain ⟨x, hx, hid, _⟩ := hm
        refine h.apart n m (Ne.symm hmn) e.id held ?_
        rw [working_ids hp, ← hid]
        exact List.mem_map_of_mem (List.mem_append_left _ hx)
      | idle =>
        rw [hp] at hm
        cases hm
      | locking ahead held =>
        rw [hp] at hm
        cases hm

/-- A commit writes every save of the batch to the row it is of. -/
theorem Coherent.saved_reaches {s : State k} (h : Coherent s) {n : Fin k} {saved : List OutboxEvent}
    {f : Bool} (at_n : s.phases n = .working ⟨saved, [], f⟩) {x : OutboxEvent} (hx : x ∈ saved) :
    ∃ row, saveTo row x ∈ applySaves saved s.rows ∧ row.id = x.id := by
  have hevents : (Batch.mk saved [] f).events = saved := List.append_nil saved
  have hnodup := h.batch_nodup at_n
  rw [hevents] at hnodup
  have held : x.id ∈ (s.phases n).ids := by
    rw [working_ids at_n, hevents]
    exact List.mem_map_of_mem hx
  obtain ⟨row, hrow, hsame, _⟩ := h.ready n x.id held
  have hfind : Tables.find OutboxEvent.id saved row.id = some x := by
    rw [hsame]
    exact Tables.find_of_mem hnodup hx
  exact ⟨row, mem_applySaves.mpr ⟨row, hrow, Or.inl ⟨x, hfind, rfl⟩⟩, hsame⟩

/-- What is out stays out, unless its batch is rolled back. -/
theorem out_kept {s t : State k} {a : Action k} (h : Coherent s) (hst : step s a = some t)
    {id : UUID} (hout : Out s id) : Out t id ∨ rollsBack id s a = true := by
  rcases hout with ⟨row, hrow, hid, hstatus⟩ | ⟨m, hm⟩
  · have settled : row.status ≠ .pending := by
      rw [hstatus]
      intro hpending
      cases hpending
    exact Or.inl (Or.inl ⟨row, settled_kept h hst hrow settled, hid, hstatus⟩)
  · have moved : ∀ {u : State k} {n : Fin k} {p : Phase}, u.phases = (s.put n p).phases →
        (m = n → p.produced id = true) → Out u id := by
      intro u n p hu hp
      refine Or.inr ⟨m, ?_⟩
      rw [hu]
      by_cases hmn : m = n
      · rw [hmn, put_self]
        exact hp hmn
      · rw [put_other s p hmn]
        exact hm
    have not_working : ∀ {n : Fin k} {q : Phase},
        s.phases n = q → q.produced id = false → m ≠ n := by
      rintro n q at_n hq rfl
      rw [at_n, hq] at hm
      cases hm
    have grows : ∀ {n : Fin k} {saved todo todo' : List OutboxEvent} {e' : OutboxEvent}
        {f f' : Bool},
        s.phases n = .working ⟨saved, todo, f⟩ → m = n →
          (Phase.working ⟨saved ++ [e'], todo', f'⟩).produced id = true := by
      rintro n saved todo todo' e' f f' at_n rfl
      rw [at_n, produced_iff] at hm
      obtain ⟨x, hx, hrest⟩ := hm
      exact produced_iff.mpr ⟨x, List.mem_append_left _ hx, hrest⟩
    cases step_sound hst with
    | insert fresh new => exact Or.inl (Or.inr ⟨m, hm⟩)
    | snapshot at_n => exact Or.inl (moved rfl (fun he => absurd he (not_working at_n rfl)))
    | lock at_n => exact Or.inl (moved rfl (fun he => absurd he (not_working at_n rfl)))
    | nothing at_n => exact Or.inl (moved rfl (fun he => absurd he (not_working at_n rfl)))
    | selected at_n => exact Or.inl (moved rfl (fun he => absurd he (not_working at_n rfl)))
    | produced at_n => exact Or.inl (moved rfl (grows at_n))
    | refused at_n => exact Or.inl (moved rfl (grows at_n))
    | flush at_n =>
      refine Or.inl (moved rfl (fun he => ?_))
      rw [he, at_n] at hm
      exact hm
    | @commit n saved at_n =>
      by_cases hmn : m = n
      · -- the batch's saves reach the table
        rw [hmn, at_n, produced_iff] at hm
        obtain ⟨x, hx, hid, hstatus⟩ := hm
        obtain ⟨row, hsaved, hsame⟩ := h.saved_reaches at_n hx
        exact Or.inl (Or.inl ⟨saveTo row x, hsaved, hsame.trans hid, hstatus⟩)
      · exact Or.inl (moved rfl (fun he => absurd he hmn))
    | @abort n =>
      by_cases hmn : m = n
      · exact Or.inr (hmn ▸ hm)
      · exact Or.inl (moved rfl (fun he => absurd he hmn))
    | @die n =>
      by_cases hmn : m = n
      · exact Or.inr (hmn ▸ hm)
      · exact Or.inl (moved rfl (fun he => absurd he hmn))

/-- With `c` rollbacks so far, a row has been handed over `c` times, and once more
if it is out. -/
def Accounted (id : UUID) (c : Nat) (s : State k) : Prop :=
  handedOver s id ≤ c + 1 ∧ (¬ Out s id → handedOver s id ≤ c)

theorem accounted_step {s t : State k} {a : Action k} (h : Coherent s) (hst : step s a = some t)
    {id : UUID} {c : Nat} (hc : Accounted id c s) :
    Accounted id (c + if rollsBack id s a then 1 else 0) t := by
  have kept : Out s id → Out t id ∨ rollsBack id s a = true := out_kept h hst
  -- unless the row itself is handed over, its count stays
  have quiet : handedOver t id = handedOver s id →
      Accounted id (c + if rollsBack id s a then 1 else 0) t := by
    intro same
    rw [Accounted, same]
    refine ⟨by have := hc.1; omega, fun hin => ?_⟩
    by_cases hout : Out s id
    · rw [if_pos ((kept hout).resolve_left hin)]
      exact hc.1
    · have := hc.2 hout
      omega
  cases step_sound hst with
  | @produced n now saved e todo at_n =>
    by_cases hid : e.id = id
    · subst hid
      have before := hc.2 (not_out h at_n)
      have count : handedOver { s.put n (.working ⟨saved ++ [published e now], todo, false⟩) with
          handed := s.handed ++ [e] } e.id = handedOver s e.id + 1 := by
        simp [handedOver, List.countP_append]
      rw [Accounted, count]
      refine ⟨by omega, fun hin => absurd (Or.inr ⟨n, ?_⟩) hin⟩
      change ((s.put n _).phases n).produced e.id = true
      rw [put_self, produced_iff]
      exact ⟨published e now, List.mem_append_right _ (List.mem_singleton_self _), rfl, rfl⟩
    · exact quiet (by simp [handedOver, List.countP_append, hid])
  | _ => exact quiet rfl

theorem accounted_run {id : UUID} {as : List (Action k)} : ∀ {s t : State k} {c : Nat},
    Coherent s → Accounted id c s → Runs.run step s as = some t →
      Accounted id (c + rollbacks id s as) t := by
  induction as with
  | nil =>
    intro s t c _ hc hrun
    cases hrun
    exact hc
  | cons a as ih =>
    intro s t c h hc hrun
    obtain ⟨u, hu, hrest⟩ := Runs.run_cons.mp hrun
    have hnext := ih (coherent s a u h hu) (accounted_step h hu hc) hrest
    simp only [rollbacks, hu]
    rw [Nat.add_assoc] at hnext
    exact hnext

theorem accounted_init (id : UUID) : Accounted id 0 (init : State k) :=
  ⟨Nat.zero_le _, fun _ => Nat.le_refl 0⟩

/-- A run in which no batch is rolled back. -/
def NoRollback (as : List (Action k)) : Prop :=
  ∀ n, .abort n ∉ as ∧ .die n ∉ as

theorem rollbacks_eq_zero {id : UUID} {as : List (Action k)} (h : NoRollback as) :
    ∀ s, rollbacks id s as = 0 := by
  induction as with
  | nil => exact fun _ => rfl
  | cons a as ih =>
    intro s
    have hrest := ih (fun n => ⟨fun hm => (h n).1 (List.mem_cons_of_mem _ hm),
      fun hm => (h n).2 (List.mem_cons_of_mem _ hm)⟩)
    have hfirst : rollsBack id s a = false := by
      cases a with
      | abort n => exact absurd List.mem_cons_self (h n).1
      | die n => exact absurd List.mem_cons_self (h n).2
      | _ => rfl
    rw [rollbacks, hfirst]
    cases step s a with
    | none => rfl
    | some t => simpa using hrest t

/-- Any number of relays, in any interleaving: no row is in two open batches, a
row committed as PUBLISHED or FAILED is never passed to `produce()` again, and
a row is handed over at most once more than batches were rolled back after
producing it. -/
theorem parallel_relays_publish_once (as : List (Action k)) :
    Runs.Always step Apart init as ∧
    (∀ bs s, Runs.run step init as = some s → ∀ row ∈ s.rows, row.status ≠ .pending →
      Runs.Steps step (fun s a _ => ∀ e, passed s a = some e → e.id ≠ row.id) s bs) ∧
    (∀ t, Runs.run step init as = some t → ∀ id,
      handedOver t id ≤ 1 + rollbacks id init as ∧
        (NoRollback as → handedOver t id ≤ 1)) := by
  refine ⟨?_, ?_, ?_⟩
  · exact (Runs.always_of_inductive coherent coherent_init).mono (fun _ h => h.apart)
  · intro bs s hrun row hrow settled
    have hs := coherent.run coherent_init hrun
    refine Runs.steps_of_steps coherent (P := fun s => row ∈ s.rows) (Q := fun _ _ _ => True)
      ?_ ?_ hs hrow (Runs.steps_of_forall (fun _ _ _ => trivial))
    · exact fun s a t h hp hst _ => settled_kept h hst hp settled
    · exact fun s a t h hp _ _ e hpassed => not_passed h hp settled hpassed
  · intro t hrun id
    have hcount := (accounted_run coherent_init (accounted_init id) hrun).1
    refine ⟨by omega, fun quiet => ?_⟩
    rw [rollbacks_eq_zero quiet] at hcount
    exact hcount

end RelayLocks
