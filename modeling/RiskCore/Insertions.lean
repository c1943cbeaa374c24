import Mathlib.Data.List.Nodup
import RiskCore.Offsets

/-!
# Rows and the messages they were made from

A handler that makes at most one row of a message, under a key it takes from the
message, and that commits the message when the row came in or when its key was
taken; a message without a key never gets a row, and its failure is taken for a
taken key. Which message a row was made from is kept as history. A committed
message has a row made from its own payload exactly when it has a key and nothing
else took it.
-/

namespace Insertions

open Offsets

universe u v w x y z

section
variable {M : Type u} {D : Type v} {P : Type w} {O : Type x} {B : Type y} {K V : Type z}

/-- A handler with the history of the rows that came in, each with its message. -/
def logged (h : Handler M D P O) (rows : D → List B) : Handler M (D × List (B × M)) P O where
  start := h.start
  next m p o store := (h.next m p o store.1).map (fun r =>
    ((r.1, store.2 ++ ((rows r.1).drop (rows store.1).length).map (fun row => (row, m))), r.2))

variable (h : Handler M D P O) (rows : D → List B) (key : B → K) (keyOf : M → Option K)
  (payload : M → V) (ready : D → M → P → Prop)

/-- What a call owes: at most one row, under the message's key if that is free, and
a commit only of a message that has no key or whose key is taken. -/
structure Call (store store' : D) (m : M) (next : Next P) : Prop where
  inserts : rows store' = rows store ∨ ∃ row, rows store' = rows store ++ [row] ∧
    keyOf m = some (key row) ∧ ∀ r ∈ rows store, key r ≠ key row
  goes : ∀ p, next = .goto p → ready store' m p
  commits : next = .commit → rows store' = rows store ∧
    (keyOf m = none ∨ ∃ row ∈ rows store, keyOf m = some (key row))

structure Keyed : Prop where
  start : ∀ store m, ready store m h.start
  call : ∀ {m p o store store' next}, ready store m p →
    h.next m p o store = some (store', next) → Call rows key keyOf ready store store' m next

/-- Each row has its message, with the row's key, and no key is there twice. -/
structure Sourced (store : D × List (B × M)) : Prop where
  sources : store.2.map Prod.fst = rows store.1
  keys : ∀ e ∈ store.2, keyOf e.2 = some (key e.1)
  nodup : (store.2.map (fun e => key e.1)).Nodup

structure Coherent (s : State M (D × List (B × M)) P) : Prop where
  store : Sourced rows key keyOf s.store
  current : ∀ d ∈ s.current, ready s.store.1 d.message d.point

/-- When the step commits the offset of a message, the table has a row made from a
message with its payload. -/
def CommitRecorded (s : State M (D × List (B × M)) P) (a : Action M O)
    (t : State M (D × List (B × M)) P) : Prop :=
  commits (logged h rows) s a = true → ∀ d ∈ s.current,
    ∃ e ∈ t.store.2, e.1 ∈ rows t.store.1 ∧ payload e.2 = payload d.message

/-- When the step commits the offset of a message, the message has a key, and a row
with that key was made from its payload. -/
def CommitApart (s : State M (D × List (B × M)) P) (a : Action M O)
    (_ : State M (D × List (B × M)) P) : Prop :=
  commits (logged h rows) s a = true → ∀ d ∈ s.current,
    keyOf d.message ≠ none ∧
      ∀ e ∈ s.store.2, keyOf d.message = some (key e.1) → payload e.2 = payload d.message

variable {h rows key keyOf payload ready}

/-! ## Calls -/

section
variable {store : D} {m : M}

theorem Call.goto {store' : D} {p : P} (same : rows store' = rows store) (hp : ready store' m p) :
    Call rows key keyOf ready store store' m (.goto p) where
  inserts := Or.inl same
  goes := by
    intro p' he
    cases he
    exact hp
  commits := by
    intro he
    cases he

theorem Call.insert {store' : D} {p : P} {row : B} (grown : rows store' = rows store ++ [row])
    (hkey : keyOf m = some (key row)) (free : ∀ r ∈ rows store, key r ≠ key row)
    (hp : ready store' m p) : Call rows key keyOf ready store store' m (.goto p) where
  inserts := Or.inr ⟨row, grown, hkey, free⟩
  goes := by
    intro p' he
    cases he
    exact hp
  commits := by
    intro he
    cases he

theorem Call.commit (hm : keyOf m = none ∨ ∃ row ∈ rows store, keyOf m = some (key row)) :
    Call rows key keyOf ready store store m .commit where
  inserts := Or.inl rfl
  goes := by
    intro p' he
    cases he
  commits := fun _ => ⟨rfl, hm⟩

theorem Call.stop {next : Next P} (stops : next = .leave ∨ next = .die) :
    Call rows key keyOf ready store store m next where
  inserts := Or.inl rfl
  goes := by
    rintro p' rfl
    rcases stops with he | he <;> cases he
  commits := by
    rintro rfl
    rcases stops with he | he <;> cases he

end

theorem next_logged {m : M} {p : P} {o : O} {store store' : D × List (B × M)} {next : Next P}
    (hn : (logged h rows).next m p o store = some (store', next)) :
    h.next m p o store.1 = some (store'.1, next) ∧ store'.2 = store.2 ++
      ((rows store'.1).drop (rows store.1).length).map (fun row => (row, m)) := by
  obtain ⟨r, hr, he⟩ := Option.map_eq_some_iff.mp hn
  cases he
  exact ⟨hr, rfl⟩

theorem sourced_call {store store' : D × List (B × M)} {m : M} {next : Next P}
    (hs : Sourced rows key keyOf store) (hc : Call rows key keyOf ready store.1 store'.1 m next)
    (hlog : store'.2 = store.2 ++
      ((rows store'.1).drop (rows store.1).length).map (fun row => (row, m))) :
    Sourced rows key keyOf store' := by
  rcases hc.inserts with same | ⟨row, grown, hkey, free⟩
  · have unchanged : store'.2 = store.2 := by
      rw [hlog, same, List.drop_length, List.map_nil, List.append_nil]
    exact ⟨by rw [unchanged, same]; exact hs.sources, by rw [unchanged]; exact hs.keys,
      by rw [unchanged]; exact hs.nodup⟩
  · have added : store'.2 = store.2 ++ [(row, m)] := by
      rw [hlog, grown, List.drop_left, List.map_singleton]
    refine ⟨?_, ?_, ?_⟩
    · rw [added, grown, List.map_append, hs.sources]
      rfl
    · rw [added]
      refine List.forall_mem_append.mpr ⟨hs.keys, ?_⟩
      exact List.forall_mem_singleton.mpr hkey
    · rw [added, List.map_append]
      refine List.nodup_append.mpr ⟨hs.nodup, List.nodup_singleton _, ?_⟩
      intro k hk k' hk' he
      obtain ⟨e, hmem, rfl⟩ := List.mem_map.mp hk
      have hrow : e.1 ∈ rows store.1 := by
        rw [← hs.sources]
        exact List.mem_map_of_mem hmem
      exact free e.1 hrow (he.trans (List.mem_singleton.mp hk'))

/-! ## Runs -/

theorem coherent_init {store : D} (empty : rows store = []) :
    Coherent rows key keyOf ready (init (store, []) : State M (D × List (B × M)) P) where
  store := by
    refine ⟨empty.symm, ?_, List.nodup_nil⟩
    intro e he
    cases he
  current := by
    intro d hd
    cases hd

theorem coherent (keyed : Keyed h rows key keyOf ready) :
    Runs.Inductive (step (logged h rows)) (Coherent rows key keyOf ready) := by
  intro s a t hs hst
  have idle : ∀ {d : Delivery M P} {store : D × List (B × M)},
      d ∈ (none : Option (Delivery M P)) → ready store.1 d.message d.point := by
    intro d store hd
    cases hd
  have called : ∀ {o d store next}, s.current = some d →
      (logged h rows).next d.message d.point o s.store = some (store, next) →
      Sourced rows key keyOf store ∧ ∀ p, next = .goto p → ready store.1 d.message p := by
    intro o d store next busy hn
    obtain ⟨hnext, hlog⟩ := next_logged hn
    have hc := keyed.call (hs.current d busy) hnext
    exact ⟨sourced_call hs.store hc hlog, hc.goes⟩
  cases step_sound hst with
  | append => exact ⟨hs.store, hs.current⟩
  | empty => exact hs
  | @poll m _ _ =>
    refine ⟨hs.store, ?_⟩
    intro d hd
    cases hd
    exact keyed.start s.store.1 m
  | goto busy next =>
    obtain ⟨hstore, hgoes⟩ := called busy next
    refine ⟨hstore, ?_⟩
    intro d hd
    cases hd
    exact hgoes _ rfl
  | commit busy next => exact ⟨(called busy next).1, fun _ hd => idle hd⟩
  | leave busy next => exact ⟨(called busy next).1, fun _ hd => idle hd⟩
  | die busy next => exact ⟨(called busy next).1, fun _ hd => idle hd⟩
  | restart => exact ⟨hs.store, fun _ hd => idle hd⟩

/-- Under its key a row is made from one message only. -/
theorem Sourced.unique {store : D × List (B × M)} (hs : Sourced rows key keyOf store)
    {e e' : B × M} (he : e ∈ store.2) (he' : e' ∈ store.2)
    (hkeys : keyOf e.2 = some (key e'.1)) : e' = e := by
  have same : key e.1 = key e'.1 := Option.some.inj ((hs.keys e he).symm.trans hkeys)
  exact List.inj_on_of_nodup_map hs.nodup he' he same.symm

/-- A step that commits: what it finds, and that it leaves the rows alone. -/
theorem committing (keyed : Keyed h rows key keyOf ready) {s t : State M (D × List (B × M)) P}
    {a : Action M O} (hs : Coherent rows key keyOf ready s)
    (hst : step (logged h rows) s a = some t) (hc : commits (logged h rows) s a = true) :
    ∃ d, s.current = some d ∧ t.store.2 = s.store.2 ∧ rows t.store.1 = rows s.store.1 ∧
      (keyOf d.message = none ∨ ∃ row ∈ rows s.store.1, keyOf d.message = some (key row)) := by
  cases step_sound hst with
  | @commit o d store busy next =>
    obtain ⟨hnext, hlog⟩ := next_logged next
    obtain ⟨same, met⟩ := (keyed.call (hs.current d busy) hnext).commits rfl
    refine ⟨d, busy, ?_, same, met⟩
    rw [hlog, same, List.drop_length, List.map_nil, List.append_nil]
  | goto busy next => cases (commits_of_next busy next).mp hc
  | leave busy next => cases (commits_of_next busy next).mp hc
  | die busy next => cases (commits_of_next busy next).mp hc
  | _ => cases hc

theorem commitRecorded_iff (keyed : Keyed h rows key keyOf ready)
    (same : ∀ m m', payload m = payload m' → keyOf m = keyOf m')
    {s t : State M (D × List (B × M)) P} {a : Action M O} (hs : Coherent rows key keyOf ready s)
    (hst : step (logged h rows) s a = some t) :
    CommitRecorded h rows payload s a t ↔ CommitApart h rows key keyOf payload s a t := by
  cases hc : commits (logged h rows) s a with
  | false =>
    have silent : ¬ commits (logged h rows) s a = true := by simp [hc]
    exact iff_of_true (fun he => absurd he silent) (fun he => absurd he silent)
  | true =>
    obtain ⟨d, busy, hlog, hrows, met⟩ := committing keyed hs hst hc
    constructor
    · intro recorded _ d' hd'
      cases busy.symm.trans hd'
      obtain ⟨e, he, _, hpayload⟩ := recorded hc d busy
      rw [hlog] at he
      have hkey := same _ _ hpayload
      rw [hs.store.keys e he] at hkey
      refine ⟨by rw [← hkey]; exact Option.some_ne_none _, fun e' he' hk => ?_⟩
      rw [hs.store.unique he he' (by rw [hs.store.keys e he, hkey, hk])]
      exact hpayload
    · intro apart _ d' hd'
      cases busy.symm.trans hd'
      obtain ⟨hsome, own⟩ := apart hc d busy
      obtain ⟨row, hrow, hkey⟩ := met.resolve_left hsome
      rw [← hs.store.sources] at hrow
      obtain ⟨e, he, rfl⟩ := List.mem_map.mp hrow
      refine ⟨e, by rw [hlog]; exact he, ?_, own e he hkey⟩
      rw [hrows, ← hs.store.sources]
      exact List.mem_map_of_mem he

/-- Along a run from an empty table: every committed message has a row made from
its payload iff every committed message has a key that no other payload took. -/
theorem recorded_iff_apart (keyed : Keyed h rows key keyOf ready)
    (same : ∀ m m', payload m = payload m' → keyOf m = keyOf m') {store : D}
    (empty : rows store = []) (as : List (Action M O)) :
    Runs.Steps (step (logged h rows)) (CommitRecorded h rows payload) (init (store, [])) as ↔
      Runs.Steps (step (logged h rows)) (CommitApart h rows key keyOf payload)
        (init (store, [])) as :=
  Runs.steps_congr (coherent keyed) (fun _ _ _ hs hst => commitRecorded_iff keyed same hs hst)
    (coherent_init empty)

/-- In particular, some row was made. -/
theorem made_of_recorded {s : State M (D × List (B × M)) P} {as : List (Action M O)}
    (hall : Runs.Steps (step (logged h rows)) (CommitRecorded h rows payload) s as) :
    Runs.Steps (step (logged h rows))
      (fun s a t => commits (logged h rows) s a = true → t.store.2.isEmpty = false) s as := by
  refine Runs.steps_mono (I := fun _ => True) (fun _ _ _ _ _ => trivial) ?_ trivial hall
  intro s a t _ hst recorded hc
  cases step_sound hst with
  | commit busy next =>
    obtain ⟨e, he, _⟩ := recorded hc _ busy
    exact List.isEmpty_eq_false_iff_exists_mem.mpr ⟨e, he⟩
  | goto busy next => cases (commits_of_next busy next).mp hc
  | leave busy next => cases (commits_of_next busy next).mp hc
  | die busy next => cases (commits_of_next busy next).mp hc
  | _ => cases hc

/-! ## Messages with keys of their own -/

/-- Only messages of this kind have been seen. -/
structure Admitted (sent : M → Prop) (s : State M (D × List (B × M)) P) : Prop where
  log : ∀ m ∈ s.log, sent m
  current : ∀ d ∈ s.current, sent d.message
  made : ∀ e ∈ s.store.2, sent e.2

theorem admitted_step {sent : M → Prop} {s t : State M (D × List (B × M)) P} {a : Action M O}
    (hs : Admitted sent s) (hst : step (logged h rows) s a = some t)
    (appended : ∀ m, a = .append m → sent m) : Admitted sent t := by
  have idle : ∀ d ∈ (none : Option (Delivery M P)), sent d.message := by
    intro d hd
    cases hd
  have called : ∀ {o d store next}, s.current = some d →
      (logged h rows).next d.message d.point o s.store = some (store, next) →
      sent d.message ∧ ∀ e ∈ store.2, sent e.2 := by
    intro o d store next busy hn
    have own := hs.current d busy
    refine ⟨own, ?_⟩
    rw [(next_logged hn).2]
    refine List.forall_mem_append.mpr ⟨hs.made, ?_⟩
    intro e he
    obtain ⟨row, _, rfl⟩ := List.mem_map.mp he
    exact own
  cases step_sound hst with
  | @append m =>
    refine ⟨?_, hs.current, hs.made⟩
    exact List.forall_mem_append.mpr ⟨hs.log, List.forall_mem_singleton.mpr (appended m rfl)⟩
  | empty => exact hs
  | poll _ at_position =>
    refine ⟨hs.log, ?_, hs.made⟩
    intro d hd
    cases hd
    exact hs.log _ (List.mem_of_getElem? at_position)
  | goto busy next =>
    obtain ⟨own, made⟩ := called busy next
    refine ⟨hs.log, ?_, made⟩
    intro d hd
    cases hd
    exact own
  | commit busy next => exact ⟨hs.log, idle, (called busy next).2⟩
  | leave busy next => exact ⟨hs.log, idle, (called busy next).2⟩
  | die busy next => exact ⟨hs.log, idle, (called busy next).2⟩
  | restart => exact ⟨hs.log, idle, hs.made⟩

/-- Where every message has a key, and the key decides the payload, what is
committed is recorded. -/
theorem recorded_of_own_keys (keyed : Keyed h rows key keyOf ready)
    (same : ∀ m m', payload m = payload m' → keyOf m = keyOf m') {store : D}
    (empty : rows store = []) {sent : M → Prop} (has : ∀ m, sent m → keyOf m ≠ none)
    (own : ∀ m m', sent m → sent m' → keyOf m = keyOf m' → payload m = payload m')
    {as : List (Action M O)} (appended : ∀ m, .append m ∈ as → sent m) :
    Runs.Steps (step (logged h rows)) (CommitRecorded h rows payload) (init (store, [])) as := by
  have hsteps : Runs.Steps (step (logged h rows)) (fun _ a _ => ∀ m, a = .append m → sent m)
      (init (store, [])) as := by
    refine Runs.steps_of_mem ?_
    rintro a ha m rfl
    exact appended m ha
  refine Runs.steps_of_steps (coherent keyed) (P := Admitted sent)
    (fun s a t _ hp hst hq => admitted_step hp hst hq) ?_ (coherent_init empty) ?_ hsteps
  · intro s a t hs hp hst _
    refine (commitRecorded_iff keyed same hs hst).mpr (fun _ d hd => ⟨has _ (hp.current d hd), ?_⟩)
    intro e he hk
    refine own _ _ (hp.made e he) (hp.current d hd) ?_
    rw [hs.store.keys e he, hk]
  · refine ⟨?_, ?_, ?_⟩
    · intro m hm
      cases hm
    · intro d hd
      cases hd
    · intro e he
      cases he

end

end Insertions
