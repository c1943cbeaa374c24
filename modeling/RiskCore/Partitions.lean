import Mathlib.Logic.Function.Basic
import RiskCore.Deliveries

/-!
# A consumer of several partitions

The messages of the topics a consumer subscribes to are spread over partitions,
each an append-only log with a position and a committed offset of its own. The
consumer takes one message at a time, of any partition that has one, and a restart
takes it back to the committed offset of every partition.

Whatever it is handed this way it could be handed from one pool of messages in no
order at all; and every message below a committed offset is recorded exactly as
long as no commit passes over a message of its partition that was given up.
-/

namespace Partitions

open Offsets (Handler Next)

universe u v w x y
variable {K : Type y} {M : Type u} {D : Type v} {P : Type w} {O : Type x}

/-- A message in the hands of the handler. -/
structure Delivery (K : Type y) (M : Type u) (P : Type w) where
  partition : K
  offset : Nat
  message : M
  point : P

/-- `failed` is the history of what was given up since the last start, by partition
and offset. -/
structure State (K : Type y) (M : Type u) (D : Type v) (P : Type w) where
  position : K → Nat
  committed : K → Nat
  store : D
  current : Option (Delivery K M P)
  failed : List (K × Nat)

inductive Action (K : Type y) (O : Type x) where
  | poll (k : K)
  | call (o : O)
  | restart

def init (store : D) : State K M D P := ⟨fun _ => 0, fun _ => 0, store, none, []⟩

def State.restart (s : State K M D P) : State K M D P :=
  { s with position := s.committed, current := none, failed := [] }

variable [DecidableEq K]

/-- The handler has gone on to `next`. -/
def State.proceed (s : State K M D P) (d : Delivery K M P) : Next P → State K M D P
  | .goto p => { s with current := some { d with point := p } }
  | .commit =>
    { s with
      current := none
      committed := Function.update s.committed d.partition (d.offset + 1) }
  | .leave => { s with current := none, failed := s.failed ++ [(d.partition, d.offset)] }
  | .die => s.restart

def step (h : Handler M D P O) (logs : K → List M) (s : State K M D P) :
    Action K O → Option (State K M D P)
  | .poll k =>
    match s.current, (logs k)[s.position k]? with
    | none, some m =>
      some { s with
        position := Function.update s.position k (s.position k + 1)
        current := some ⟨k, s.position k, m, h.start⟩ }
    | none, none => some s
    | some _, _ => none
  | .call o =>
    match s.current with
    | some d =>
      (h.next d.message d.point o s.store).map
        (fun r => { s with store := r.1 }.proceed d r.2)
    | none => none
  | .restart => some s.restart

/-- What one step can do, case by case. -/
inductive Step (h : Handler M D P O) (logs : K → List M) (s : State K M D P) :
    Action K O → State K M D P → Prop where
  | poll {k m} (idle : s.current = none) (at_position : (logs k)[s.position k]? = some m) :
      Step h logs s (.poll k)
        { s with
          position := Function.update s.position k (s.position k + 1)
          current := some ⟨k, s.position k, m, h.start⟩ }
  | empty {k} : Step h logs s (.poll k) s
  | call {o d store next} (busy : s.current = some d)
      (ok : h.next d.message d.point o s.store = some (store, next)) :
      Step h logs s (.call o) ({ s with store := store }.proceed d next)
  | restart : Step h logs s .restart s.restart

theorem step_sound {h : Handler M D P O} {logs : K → List M} {s t : State K M D P}
    {a : Action K O} (hst : step h logs s a = some t) : Step h logs s a t := by
  cases a with
  | poll k =>
    simp only [step] at hst
    split at hst
    · rename_i idle at_position
      cases hst
      exact .poll idle at_position
    · cases hst
      exact .empty
    · cases hst
  | call o =>
    simp only [step] at hst
    split at hst
    · rename_i d busy
      obtain ⟨⟨store, next⟩, ok, rfl⟩ := Option.map_eq_some_iff.mp hst
      exact .call busy ok
    · cases hst
  | restart =>
    cases hst
    exact .restart

/-! ## In no order at all -/

/-- Without partitions and offsets. -/
def Shows (s : State K M D P) (c : Deliveries.State M D P) : Prop :=
  c.store = s.store ∧ c.current = s.current.map (fun d => (d.message, d.point))

omit [DecidableEq K] in
theorem shows_init (store : D) :
    Shows (init store : State K M D P) (Deliveries.init store) := ⟨rfl, rfl⟩

/-- A step of the consumer is a delivery from the pool, or a step there, or nothing. -/
theorem step_shows {h : Handler M D P O} {logs : K → List M} {pool : List M}
    (pooled : ∀ k, ∀ m ∈ logs k, m ∈ pool) {s t : State K M D P} {a : Action K O}
    {c : Deliveries.State M D P} (shown : Shows s c) (hst : step h logs s a = some t) :
    Shows t c ∨ ∃ f c', (Deliveries.feed pool f).bind (Deliveries.step h c) = some c' ∧
      Shows t c' := by
  obtain ⟨hstore, hcurrent⟩ := shown
  cases step_sound hst with
  | @poll k m idle at_position =>
    obtain ⟨i, hi⟩ := List.mem_iff_getElem?.mp (pooled k m (List.mem_of_getElem? at_position))
    rw [idle] at hcurrent
    refine Or.inr ⟨.deliver i, { c with current := some (m, h.start) }, ?_, hstore, rfl⟩
    simp [Deliveries.feed, hi, Deliveries.step, hcurrent]
  | empty => exact Or.inl ⟨hstore, hcurrent⟩
  | @call o d store next busy ok =>
    rw [busy] at hcurrent
    refine Or.inr ⟨.call o, c.proceed d.message store next, ?_, ?_⟩
    · simp [Deliveries.feed, Deliveries.step, hcurrent, hstore, ok]
    · cases next <;> exact ⟨rfl, rfl⟩
  | restart =>
    exact Or.inr ⟨.crash, { c with current := none }, rfl, hstore, rfl⟩

/-! ## What a commit promises -/

section
variable (h : Handler M D P O) (sent : M → Prop) (recorded : D → M → Prop)
  (ready : D → M → P → Prop) (logs : K → List M)

/-- What the calls of the handler owe when it is handed messages of `sent`: nothing
recorded is lost, `ready` holds where the handler goes on, and a message is committed
only when it is recorded. -/
structure Sound : Prop where
  start : ∀ {store m}, sent m → ready store m h.start
  grows : ∀ {m p o store store' next}, sent m → ready store m p →
    h.next m p o store = some (store', next) →
      ∀ m', sent m' → recorded store m' → recorded store' m'
  goes : ∀ {m p o store store' p'}, sent m → ready store m p →
    h.next m p o store = some (store', .goto p') → ready store' m p'
  commits : ∀ {m p o store store'}, sent m → ready store m p →
    h.next m p o store = some (store', .commit) → recorded store' m

/-- Every message below the committed offset of its partition is recorded. -/
def Stored (s : State K M D P) : Prop :=
  ∀ k, ∀ i < s.committed k, ∀ m ∈ (logs k)[i]?, recorded s.store m

/-- The partition whose offset the step commits. -/
def commits (s : State K M D P) : Action K O → Option K
  | .call o =>
    match s.current with
    | some d =>
      match h.next d.message d.point o s.store with
      | some (_, .commit) => some d.partition
      | _ => none
    | none => none
  | _ => none

/-- When an offset is committed, the messages of the partition given up since the
last start are recorded all the same. -/
def FailuresRecorded (s : State K M D P) (a : Action K O) (t : State K M D P) : Prop :=
  ∀ k ∈ commits h s a, ∀ f ∈ s.failed, f.1 = k → ∀ m ∈ (logs k)[f.2]?, recorded t.store m

instance [∀ store m, Decidable (recorded store m)] (s : State K M D P) (a : Action K O)
    (t : State K M D P) : Decidable (FailuresRecorded h recorded logs s a t) :=
  inferInstanceAs (Decidable (∀ k ∈ commits h s a, ∀ f ∈ s.failed, f.1 = k →
    ∀ m ∈ (logs k)[f.2]?, recorded t.store m))

/-- Between the committed offset of a partition and its position there are only
messages given up and the one in hand. -/
structure Coherent (s : State K M D P) : Prop where
  behind : ∀ k, s.committed k ≤ s.position k
  within : ∀ k, s.position k ≤ (logs k).length
  failed : ∀ k i, (k, i) ∈ s.failed → i < s.position k
  between : ∀ k i, s.committed k ≤ i → i < s.position k → (k, i) ∈ s.failed ∨
    ∃ d, s.current = some d ∧ d.partition = k ∧ d.offset = i
  busy : ∀ d, s.current = some d → d.offset + 1 = s.position d.partition ∧
    s.committed d.partition ≤ d.offset ∧ (logs d.partition)[d.offset]? = some d.message ∧
    ready s.store d.message d.point

variable {h sent recorded ready logs}

omit [DecidableEq K] in
theorem coherent_init (store : D) : Coherent ready logs (init store : State K M D P) where
  behind := fun _ => Nat.le_refl _
  within := fun _ => Nat.zero_le _
  failed := by
    intro k i hi
    cases hi
  between := by
    intro k i _ hi
    exact absurd hi (Nat.not_lt_zero i)
  busy := by
    intro d hd
    cases hd

omit [DecidableEq K] in
theorem coherent_restart {s : State K M D P} (behind : ∀ k, s.committed k ≤ s.position k)
    (within : ∀ k, s.position k ≤ (logs k).length) : Coherent ready logs s.restart where
  behind := fun _ => Nat.le_refl _
  within := fun k => Nat.le_trans (behind k) (within k)
  failed := by
    intro k i hi
    cases hi
  between := by
    intro k i hle hlt
    exact absurd hlt (Nat.not_lt.mpr hle)
  busy := by
    intro d hd
    cases hd

theorem getElem?_grown {log log' : List M} (grown : log <+: log') {i : Nat}
    (hi : i < log.length) : log'[i]? = log[i]? := by
  obtain ⟨new, rfl⟩ := grown
  exact List.getElem?_append_left hi

omit [DecidableEq K] in
/-- The logs grow under the consumer. -/
theorem Coherent.grow {logs' : K → List M} {s : State K M D P} (hs : Coherent ready logs s)
    (grown : ∀ k, logs k <+: logs' k) : Coherent ready logs' s where
  behind := hs.behind
  within := fun k => Nat.le_trans (hs.within k) (grown k).length_le
  failed := hs.failed
  between := hs.between
  busy := by
    intro d hd
    obtain ⟨offset, behind, at_offset, point⟩ := hs.busy d hd
    refine ⟨offset, behind, ?_, point⟩
    rw [getElem?_grown (grown _) (List.getElem?_eq_some_iff.mp at_offset).1]
    exact at_offset

omit [DecidableEq K] in
theorem Stored.grow {logs' : K → List M} {s : State K M D P} (hs : Coherent ready logs s)
    (hp : Stored recorded logs s) (grown : ∀ k, logs k <+: logs' k) :
    Stored recorded logs' s := by
  intro k i hi m hm
  have within : i < (logs k).length :=
    Nat.lt_of_lt_of_le hi (Nat.le_trans (hs.behind k) (hs.within k))
  rw [getElem?_grown (grown k) within] at hm
  exact hp k i hi m hm

theorem coherent_step (sound : Sound h sent recorded ready)
    (all_sent : ∀ k, ∀ m ∈ logs k, sent m) {s t : State K M D P} {a : Action K O}
    (hs : Coherent ready logs s) (hst : step h logs s a = some t) : Coherent ready logs t := by
  cases step_sound hst with
  | @poll k m idle at_position =>
    have here : s.position k < (logs k).length := (List.getElem?_eq_some_iff.mp at_position).1
    have moved : ∀ j, s.position j ≤ Function.update s.position k (s.position k + 1) j := by
      intro j
      by_cases hj : j = k
      · subst hj
        simp
      · simp [Function.update_of_ne hj]
    constructor
    case behind => exact fun j => Nat.le_trans (hs.behind j) (moved j)
    case within =>
      intro j
      by_cases hj : j = k
      · subst hj
        simpa using Nat.succ_le_of_lt here
      · simpa [Function.update_of_ne hj] using hs.within j
    case failed => exact fun j i hi => Nat.lt_of_lt_of_le (hs.failed j i hi) (moved j)
    case between =>
      intro j i hle hlt
      by_cases hj : j = k
      · subst hj
        simp only [Function.update_self] at hlt
        rcases Nat.lt_succ_iff_lt_or_eq.mp hlt with hlt | rfl
        · rcases hs.between j i hle hlt with hf | ⟨d, hd, -⟩
          · exact Or.inl hf
          · rw [idle] at hd
            cases hd
        · exact Or.inr ⟨_, rfl, rfl, rfl⟩
      · simp only [Function.update_of_ne hj] at hlt
        rcases hs.between j i hle hlt with hf | ⟨d, hd, -⟩
        · exact Or.inl hf
        · rw [idle] at hd
          cases hd
    case busy =>
      intro d hd
      cases hd
      exact ⟨by simp, hs.behind k, at_position,
        sound.start (all_sent k m (List.mem_of_getElem? at_position))⟩
  | empty => exact hs
  | @call o d store next busy ok =>
    obtain ⟨offset, behind, at_offset, point⟩ := hs.busy d busy
    have hsent : sent d.message := all_sent _ _ (List.mem_of_getElem? at_offset)
    have mine : ∀ e, s.current = some e → e = d := fun e he => Option.some.inj (he.symm.trans busy)
    cases next with
    | goto p =>
      refine ⟨hs.behind, hs.within, hs.failed, fun k i hle hlt => ?_, fun e he => ?_⟩
      · rcases hs.between k i hle hlt with hf | ⟨e, he, hk, hi⟩
        · exact Or.inl hf
        · rw [mine e he] at hk hi
          exact Or.inr ⟨_, rfl, hk, hi⟩
      · cases he
        exact ⟨offset, behind, at_offset, sound.goes hsent point ok⟩
    | commit =>
      refine ⟨fun k => ?_, hs.within, hs.failed, fun k i hle hlt => ?_, fun e he => ?_⟩
      · simp only [State.proceed]
        by_cases hk : k = d.partition
        · subst hk
          simp [offset]
        · simpa [Function.update_of_ne hk] using hs.behind k
      · simp only [State.proceed] at hle hlt
        by_cases hk : k = d.partition
        · subst hk
          simp only [Function.update_self] at hle
          omega
        · simp only [Function.update_of_ne hk] at hle
          rcases hs.between k i hle hlt with hf | ⟨e, he, hke, -⟩
          · exact Or.inl hf
          · rw [mine e he] at hke
            exact absurd hke.symm hk
      · cases he
    | leave =>
      refine ⟨hs.behind, hs.within, fun k i hi => ?_, fun k i hle hlt => ?_, fun e he => ?_⟩
      · rcases List.mem_append.mp hi with hi | hi
        · exact hs.failed k i hi
        · cases List.mem_singleton.mp hi
          exact Nat.lt_of_succ_le (Nat.le_of_eq offset)
      · refine Or.inl (List.mem_append.mpr ?_)
        rcases hs.between k i hle hlt with hf | ⟨e, he, hk, hi⟩
        · exact Or.inl hf
        · rw [mine e he] at hk hi
          exact Or.inr (by simp [hk, hi])
      · cases he
    | die => exact coherent_restart hs.behind hs.within
  | restart => exact coherent_restart hs.behind hs.within

omit [DecidableEq K] in
theorem commits_of_next {s : State K M D P} {o : O} {d : Delivery K M P} {store : D}
    {next : Next P} (busy : s.current = some d)
    (ok : h.next d.message d.point o s.store = some (store, next)) :
    (next = .commit ∧ commits h s (.call o) = some d.partition) ∨
      (next ≠ .commit ∧ commits h s (.call o) = none) := by
  cases next <;> simp [commits, busy, ok]

/-- Everything below a committed offset stays recorded in a step iff the step commits
past nothing given up and unrecorded. -/
theorem stored_step_iff (sound : Sound h sent recorded ready)
    (all_sent : ∀ k, ∀ m ∈ logs k, sent m) {s t : State K M D P} {a : Action K O}
    (hs : Coherent ready logs s) (hp : Stored recorded logs s) (hst : step h logs s a = some t) :
    Stored recorded logs t ↔ FailuresRecorded h recorded logs s a t := by
  have quiet : commits h s a = none → t.committed = s.committed →
      (∀ m, sent m → recorded s.store m → recorded t.store m) →
      (Stored recorded logs t ↔ FailuresRecorded h recorded logs s a t) := by
    intro hnone hcommitted grows
    refine iff_of_true (fun k i hi m hm => ?_) (fun k hk => ?_)
    · rw [hcommitted] at hi
      exact grows m (all_sent k m (List.mem_of_getElem? hm)) (hp k i hi m hm)
    · rw [hnone] at hk
      cases hk
  cases step_sound hst with
  | poll idle at_position => exact quiet rfl rfl (fun _ _ hm => hm)
  | empty => exact quiet rfl rfl (fun _ _ hm => hm)
  | restart => exact quiet rfl rfl (fun _ _ hm => hm)
  | @call o d store next busy ok =>
    obtain ⟨offset, behind, at_offset, point⟩ := hs.busy d busy
    have hsent : sent d.message := all_sent _ _ (List.mem_of_getElem? at_offset)
    have grows := sound.grows hsent point ok
    rcases commits_of_next busy ok with ⟨rfl, hcommits⟩ | ⟨hother, hnone⟩
    · simp only [FailuresRecorded, hcommits, Option.mem_some_iff, forall_eq', Stored,
        State.proceed]
      constructor
      · rintro hall ⟨k, i⟩ hf rfl m hm
        refine hall _ i ?_ m hm
        rw [Function.update_self, offset]
        exact hs.failed _ i hf
      · -- the messages up to the one in hand: committed before, given up, or its own
        intro hall k i hi m hm
        have msent : sent m := all_sent k m (List.mem_of_getElem? hm)
        by_cases hk : k = d.partition
        · subst hk
          rw [Function.update_self] at hi
          by_cases hown : i = d.offset
          · rw [hown, at_offset] at hm
            cases hm
            exact sound.commits hsent point ok
          · rcases Nat.lt_or_ge i (s.committed d.partition) with hlt | hge
            · exact grows m msent (hp _ i hlt m hm)
            · rcases hs.between _ i hge (by omega) with hf | ⟨e, he, -, hie⟩
              · exact hall (_, i) hf rfl m hm
              · rw [busy] at he
                cases he
                exact absurd hie.symm hown
        · rw [Function.update_of_ne hk] at hi
          exact grows m msent (hp k i hi m hm)
    · refine quiet hnone ?_ ?_
      · cases next with
        | commit => exact absurd rfl hother
        | _ => rfl
      · cases next <;> exact grows

end

/-- What is known of a handler of `M'`s says it of messages that contain an `M'`. -/
theorem sound_of_comap {M' : Type*} {f : M' → M} {h : Handler M D P O}
    {recorded : D → M → Prop} {ready : D → M' → P → Prop}
    (sound : Offsets.Sound (h.comap f) (fun store m => recorded store (f m)) ready) :
    Sound h (fun m => ∃ m', f m' = m) recorded
      (fun store m p => ∃ m', f m' = m ∧ ready store m' p) where
  start := by
    rintro store _ ⟨m, rfl⟩
    exact ⟨m, rfl, sound.start store m⟩
  grows := by
    rintro _ p o store store' next - ⟨m, rfl, hready⟩ ok _ ⟨m', rfl⟩ hm'
    exact (sound.call hready ok).grows m' hm'
  goes := by
    rintro _ p o store store' p' - ⟨m, rfl, hready⟩ ok
    exact ⟨m, rfl, (sound.call hready ok).goes p' rfl⟩
  commits := by
    rintro _ p o store store' - ⟨m, rfl, hready⟩ ok
    obtain ⟨rfl, hm⟩ := (sound.call hready ok).commits rfl
    exact hm

end Partitions
