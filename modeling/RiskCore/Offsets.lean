import RiskCore.Runs

/-!
# A consumer with committed offsets

One partition is an append-only log. The consumer takes the message at its
in-memory position, runs a handler over it step by step, and may commit the
offset after the message; a restart takes the position back to the committed
offset. The handler is a parameter: a set of program points, what each does to
the durable store on each outcome of its calls, and how it ends.

What a commit promises is settled here for every handler that commits only
recorded messages.
-/

namespace Offsets

universe u v w x y
variable {M : Type u} {D : Type v} {P : Type w} {O : Type x}

/-- Where a handler goes on: to another point, out of the message with or without
committing its offset, or down with the process. -/
inductive Next (P : Type w) where
  | goto (p : P)
  | commit
  | leave
  | die

/-- `M` are the messages, `D` the durable stores, `P` the program points and `O`
the outcomes of the calls the handler makes. -/
structure Handler (M : Type u) (D : Type v) (P : Type w) (O : Type x) where
  start : P
  next : M → P → O → D → Option (D × Next P)

/-- A handler of `M` as a handler of messages that contain an `M`. -/
def Handler.comap {M' : Type y} (f : M' → M) (h : Handler M D P O) : Handler M' D P O :=
  ⟨h.start, fun m => h.next (f m)⟩

/-- A message in the hands of the handler. -/
structure Delivery (M : Type u) (P : Type w) where
  offset : Nat
  message : M
  point : P

/-- `failed` is the history of the offsets given up since the last start. -/
structure State (M : Type u) (D : Type v) (P : Type w) where
  log : List M
  position : Nat
  committed : Nat
  store : D
  current : Option (Delivery M P)
  failed : List Nat

inductive Action (M : Type u) (O : Type x) where
  | append (m : M)
  | poll
  | call (o : O)
  | restart

def init (store : D) : State M D P := ⟨[], 0, 0, store, none, []⟩

def State.restart (s : State M D P) : State M D P :=
  { s with position := s.committed, current := none, failed := [] }

/-- The handler has gone on to `next`. -/
def State.proceed (s : State M D P) (d : Delivery M P) : Next P → State M D P
  | .goto p => { s with current := some { d with point := p } }
  | .commit => { s with current := none, committed := d.offset + 1 }
  | .leave => { s with current := none, failed := s.failed ++ [d.offset] }
  | .die => s.restart

def step (h : Handler M D P O) (s : State M D P) : Action M O → Option (State M D P)
  | .append m => some { s with log := s.log ++ [m] }
  | .poll =>
    match s.current, s.log[s.position]? with
    | none, some m =>
      some { s with position := s.position + 1, current := some ⟨s.position, m, h.start⟩ }
    | none, none => some s
    | some _, _ => none
  | .call o =>
    match s.current with
    | some d =>
      (h.next d.message d.point o s.store).map
        (fun r => { s with store := r.1 }.proceed d r.2)
    | none => none
  | .restart => some s.restart

/-- What one step can do, case by case. -/
inductive Step (h : Handler M D P O) (s : State M D P) : Action M O → State M D P → Prop where
  | append {m} : Step h s (.append m) { s with log := s.log ++ [m] }
  | poll {m} (idle : s.current = none) (at_position : s.log[s.position]? = some m) :
      Step h s .poll
        { s with position := s.position + 1, current := some ⟨s.position, m, h.start⟩ }
  | empty : Step h s .poll s
  | goto {o d store p} (busy : s.current = some d)
      (next : h.next d.message d.point o s.store = some (store, .goto p)) :
      Step h s (.call o) { s with store := store, current := some { d with point := p } }
  | commit {o d store} (busy : s.current = some d)
      (next : h.next d.message d.point o s.store = some (store, .commit)) :
      Step h s (.call o)
        { s with store := store, current := none, committed := d.offset + 1 }
  | leave {o d store} (busy : s.current = some d)
      (next : h.next d.message d.point o s.store = some (store, .leave)) :
      Step h s (.call o)
        { s with store := store, current := none, failed := s.failed ++ [d.offset] }
  | die {o d store} (busy : s.current = some d)
      (next : h.next d.message d.point o s.store = some (store, .die)) :
      Step h s (.call o) { s with store := store }.restart
  | restart : Step h s .restart s.restart

theorem step_sound {h : Handler M D P O} {s t : State M D P} {a : Action M O}
    (hst : step h s a = some t) : Step h s a t := by
  cases a with
  | append m =>
    cases hst
    exact .append
  | poll =>
    simp only [step] at hst
    split at hst
    · rename_i idle at_position
      cases hst
      exact .poll idle at_position
    · cases hst
      exact .empty
    · cases hst
  | call o =>
    simp only [step] at hst
    split at hst
    · rename_i d busy
      obtain ⟨⟨store, next⟩, hnext, rfl⟩ := Option.map_eq_some_iff.mp hst
      cases next with
      | goto p => exact .goto busy hnext
      | commit => exact .commit busy hnext
      | leave => exact .leave busy hnext
      | die => exact .die busy hnext
    · cases hst
  | restart =>
    cases hst
    exact .restart

/-! ## What a commit promises -/

section
variable (h : Handler M D P O) (recorded : D → M → Prop) (ready : D → M → P → Prop)

/-- What a call of the handler owes, given that `ready` holds where it is made:
nothing recorded is lost, `ready` holds where the handler goes on, and a message
is committed only when it is recorded. -/
structure Call (store store' : D) (m : M) (next : Next P) : Prop where
  grows : ∀ m', recorded store m' → recorded store' m'
  goes : ∀ p, next = .goto p → ready store' m p
  commits : next = .commit → store' = store ∧ recorded store m

structure Sound : Prop where
  start : ∀ store m, ready store m h.start
  call : ∀ {m p o store store' next}, ready store m p →
    h.next m p o store = some (store', next) → Call recorded ready store store' m next

/-- Every message below the committed offset is recorded. -/
def Stored (s : State M D P) : Prop :=
  ∀ i < s.committed, ∀ m ∈ s.log[i]?, recorded s.store m

instance [∀ store m, Decidable (recorded store m)] (s : State M D P) :
    Decidable (Stored recorded s) :=
  inferInstanceAs (Decidable (∀ i < s.committed, ∀ m ∈ s.log[i]?, recorded s.store m))

/-- Whether the step commits an offset. -/
def commits (s : State M D P) : Action M O → Bool
  | .call o =>
    match s.current with
    | some d =>
      match h.next d.message d.point o s.store with
      | some (_, .commit) => true
      | _ => false
    | none => false
  | _ => false

/-- When an offset is committed, the messages given up since the last start are
recorded all the same. -/
def FailuresRecorded (s : State M D P) (a : Action M O) (_ : State M D P) : Prop :=
  commits h s a = true → ∀ i ∈ s.failed, ∀ m ∈ s.log[i]?, recorded s.store m

/-- Between the committed offset and the message in hand there are only messages
given up. -/
structure Coherent (s : State M D P) : Prop where
  behind : s.committed ≤ s.position
  within : s.position ≤ s.log.length
  failed : ∀ i ∈ s.failed, i < s.position
  idle : s.current = none → ∀ i, s.committed ≤ i → i < s.position → i ∈ s.failed
  busy : ∀ d, s.current = some d → d.offset + 1 = s.position ∧ s.committed ≤ d.offset ∧
    s.log[d.offset]? = some d.message ∧ ready s.store d.message d.point ∧
    ∀ i, s.committed ≤ i → i < d.offset → i ∈ s.failed

variable {h recorded ready}

section
variable {store : D} {m : M}

theorem Call.goto {store' : D} {p : P} (grows : ∀ m', recorded store m' → recorded store' m')
    (hp : ready store' m p) : Call recorded ready store store' m (.goto p) where
  grows := grows
  goes := by
    intro p' he
    cases he
    exact hp
  commits := by
    intro he
    cases he

theorem Call.commit (hm : recorded store m) :
    Call recorded ready store store m .commit where
  grows := fun _ hm => hm
  goes := by
    intro p' he
    cases he
  commits := fun _ => ⟨rfl, hm⟩

theorem Call.stop {next : Next P} (stops : next = .leave ∨ next = .die) :
    Call recorded ready store store m next where
  grows := fun _ hm => hm
  goes := by
    rintro p' rfl
    rcases stops with he | he <;> cases he
  commits := by
    rintro rfl
    rcases stops with he | he <;> cases he

end

theorem coherent_init (store : D) : Coherent ready (init store : State M D P) where
  behind := Nat.le_refl _
  within := Nat.le_refl _
  failed := by
    intro i hi
    cases hi
  idle := by
    intro _ i _ hi
    exact absurd hi (Nat.not_lt_zero i)
  busy := by
    intro d hd
    cases hd

theorem coherent_restart {s : State M D P} (behind : s.committed ≤ s.position)
    (within : s.position ≤ s.log.length) : Coherent ready s.restart where
  behind := Nat.le_refl _
  within := Nat.le_trans behind within
  failed := by
    intro i hi
    cases hi
  idle := by
    intro _ i hle hlt
    exact absurd hlt (Nat.not_lt.mpr hle)
  busy := by
    intro d hd
    cases hd

theorem getElem?_append_some {log : List M} {i : Nat} {m m' : M} (hi : log[i]? = some m) :
    (log ++ [m'])[i]? = some m := by
  rw [List.getElem?_append_left (List.getElem?_eq_some_iff.mp hi).1]
  exact hi

theorem coherent (sound : Sound h recorded ready) :
    Runs.Inductive (step h) (Coherent ready) := by
  intro s a t hs hst
  cases step_sound hst with
  | append =>
    refine ⟨hs.behind, ?_, hs.failed, hs.idle, ?_⟩
    · rw [List.length_append]
      exact Nat.le_add_right_of_le hs.within
    · intro d hd
      obtain ⟨offset, behind, at_offset, point, given_up⟩ := hs.busy d hd
      exact ⟨offset, behind, getElem?_append_some at_offset, point, given_up⟩
  | @poll m idle at_position =>
    have within : s.position < s.log.length := (List.getElem?_eq_some_iff.mp at_position).1
    refine ⟨Nat.le_succ_of_le hs.behind, within, ?_, ?_, ?_⟩
    · exact fun i hi => Nat.lt_succ_of_lt (hs.failed i hi)
    · intro hnone
      cases hnone
    · intro d hd
      cases hd
      exact ⟨rfl, hs.behind, at_position, sound.start _ _, hs.idle idle⟩
  | empty => exact hs
  | goto busy next =>
    obtain ⟨offset, behind, at_offset, point, given_up⟩ := hs.busy _ busy
    refine ⟨hs.behind, hs.within, hs.failed, ?_, ?_⟩
    · intro hnone
      cases hnone
    · intro d hd
      cases hd
      exact ⟨offset, behind, at_offset, (sound.call point next).goes _ rfl, given_up⟩
  | commit busy next =>
    obtain ⟨offset, _⟩ := hs.busy _ busy
    refine ⟨Nat.le_of_eq offset, hs.within, hs.failed, ?_, ?_⟩
    · intro _ i hle hlt
      exact absurd hlt (Nat.not_lt.mpr (offset ▸ hle))
    · intro d hd
      cases hd
  | @leave o d store busy next =>
    obtain ⟨offset, _, _, _, given_up⟩ := hs.busy _ busy
    refine ⟨hs.behind, hs.within, ?_, ?_, ?_⟩
    · intro i hi
      rcases List.mem_append.mp hi with hi | hi
      · exact hs.failed i hi
      · rw [List.mem_singleton.mp hi]
        exact Nat.lt_of_succ_le (Nat.le_of_eq offset)
    · intro _ i hle hlt
      have hlt' : i < s.position := hlt
      rw [List.mem_append, List.mem_singleton]
      by_cases hi : i = d.offset
      · exact Or.inr hi
      · exact Or.inl (given_up i hle (by omega))
    · intro d hd
      cases hd
  | die busy next => exact coherent_restart hs.behind hs.within
  | restart => exact coherent_restart hs.behind hs.within

theorem commits_of_next {s : State M D P} {o : O} {d : Delivery M P} {store : D} {next : Next P}
    (busy : s.current = some d) (hnext : h.next d.message d.point o s.store = some (store, next)) :
    commits h s (.call o) = true ↔ next = .commit := by
  cases next <;> simp [commits, busy, hnext]

/-- Steps that commit nothing keep what is stored. -/
theorem stored_iff_of_quiet {s t : State M D P} {a : Action M O} (hp : Stored recorded s)
    (quiet : ¬ commits h s a = true) (committed : t.committed = s.committed)
    (log : ∀ i < s.committed, t.log[i]? = s.log[i]?)
    (grows : ∀ m, recorded s.store m → recorded t.store m) :
    Stored recorded t ↔ FailuresRecorded h recorded s a t := by
  refine iff_of_true ?_ (fun hc => absurd hc quiet)
  intro i hi m hm
  rw [committed] at hi
  rw [log i hi] at hm
  exact grows m (hp i hi m hm)

/-- What a commit passes over are the messages given up and its own. -/
theorem stored_iff_of_commit {s : State M D P} {d : Delivery M P} (hs : Coherent ready s)
    (hp : Stored recorded s) (busy : s.current = some d)
    (own : recorded s.store d.message) :
    (∀ i < d.offset + 1, ∀ m ∈ s.log[i]?, recorded s.store m) ↔
      ∀ i ∈ s.failed, ∀ m ∈ s.log[i]?, recorded s.store m := by
  obtain ⟨offset, _, at_offset, _, given_up⟩ := hs.busy d busy
  constructor
  · intro hall i hi
    exact hall i (offset ▸ hs.failed i hi)
  · intro hall i hi m hm
    rcases Nat.lt_or_ge i s.committed with hlt | hge
    · exact hp i hlt m hm
    · by_cases hown : i = d.offset
      · rw [hown, at_offset] at hm
        cases hm
        exact own
      · exact hall i (given_up i hge (by omega)) m hm

theorem stored_step_iff (sound : Sound h recorded ready) {s t : State M D P} {a : Action M O}
    (hs : Coherent ready s) (hp : Stored recorded s) (hst : step h s a = some t) :
    Stored recorded t ↔ FailuresRecorded h recorded s a t := by
  have same : ∀ i < s.committed, s.log[i]? = s.log[i]? := fun _ _ => rfl
  have grows : ∀ {d o store next}, s.current = some d →
      h.next d.message d.point o s.store = some (store, next) →
      ∀ m, recorded s.store m → recorded store m :=
    fun busy next => (sound.call (hs.busy _ busy).2.2.2.1 next).grows
  cases step_sound hst with
  | append =>
    refine stored_iff_of_quiet hp (fun hc => by cases hc) rfl ?_ (fun _ hm => hm)
    intro i hi
    exact List.getElem?_append_left (Nat.lt_of_lt_of_le hi (Nat.le_trans hs.behind hs.within))
  | poll idle at_position =>
    exact stored_iff_of_quiet hp (fun hc => by cases hc) rfl same (fun _ hm => hm)
  | empty => exact stored_iff_of_quiet hp (fun hc => by cases hc) rfl same (fun _ hm => hm)
  | goto busy next =>
    refine stored_iff_of_quiet hp (fun hc => ?_) rfl same (grows busy next)
    cases (commits_of_next busy next).mp hc
  | @commit o d store busy next =>
    obtain ⟨rfl, own⟩ := (sound.call (hs.busy d busy).2.2.2.1 next).commits rfl
    have hcommits : commits h s (.call o) = true := (commits_of_next busy next).mpr rfl
    refine (stored_iff_of_commit hs hp busy own).trans ?_
    exact ⟨fun hall _ => hall, fun hall => hall hcommits⟩
  | leave busy next =>
    refine stored_iff_of_quiet hp (fun hc => ?_) rfl same (grows busy next)
    cases (commits_of_next busy next).mp hc
  | die busy next =>
    refine stored_iff_of_quiet hp (fun hc => ?_) rfl same (grows busy next)
    cases (commits_of_next busy next).mp hc
  | restart => exact stored_iff_of_quiet hp (fun hc => by cases hc) rfl same (fun _ hm => hm)

/-- For a sound handler, everything below the committed offset is recorded along
a run iff no commit of the run passes over a message given up and unrecorded. -/
theorem stored_iff_failures_recorded (sound : Sound h recorded ready) (store : D)
    (as : List (Action M O)) :
    Runs.Always (step h) (Stored recorded) (init store) as ↔
      Runs.Steps (step h) (FailuresRecorded h recorded) (init store) as := by
  refine Runs.always_iff_steps (coherent sound) ?_ (coherent_init store) ?_
  · exact fun s a t hs hp hst => stored_step_iff sound hs hp hst
  · intro i hi
    exact absurd hi (Nat.not_lt_zero i)

end

end Offsets
