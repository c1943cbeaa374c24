import RiskCore.ClaimService

/-!
# One claim's record across the three tables

Everything the database says about one claim: its row, its history rows and its
outbox rows, in commit order. A committed call either opens one new record or
extends the record of one claim, and leaves every other record as it was; the
tables move record by record.
-/

namespace ClaimRecords

open Values Outbox ClaimService

structure Record where
  claim : Claim
  history : List ClaimStatusHistory
  events : List OutboxEvent

def historyOf (history : List ClaimStatusHistory) (id : UUID) : List ClaimStatusHistory :=
  Tables.select ClaimStatusHistory.claimId history id

def recordOf (db : Store) (id : UUID) : Option Record :=
  (Tables.find Claim.id db.claims id).map
    (fun claim => ⟨claim, historyOf db.history id, eventsOf db.outbox id⟩)

/-- The status changes the history reports. -/
def changes (r : Record) : List (Option Claim.Status × Claim.Status) :=
  r.history.map (fun h => (h.fromStatus, h.toStatus))

def isResolved (e : OutboxEvent) : Bool := e.eventType = "claim.resolved"

def resolvedOf (r : Record) : List OutboxEvent := r.events.filter isResolved

/-- The record `file_claim` opens. -/
def filedRecord (env : Env) (claim : Claim) : Record :=
  ⟨claim, [filedHistory env claim], [filedEvent env claim]⟩

/-- What a committed `transition_status` makes of a record. -/
def Record.transitioned (r : Record) (env : Env) (fromStatus : Claim.Status)
    (req : TransitionRequest) : Record :=
  let claim := r.claim.transitioned (env.now 0) req
  ⟨claim, r.history ++ [transitionHistory env claim fromStatus req],
    r.events ++ statusChangedEvent env claim fromStatus req :: resolvedEvents env claim req⟩

theorem changes_filed (env : Env) (claim : Claim) :
    changes (filedRecord env claim) = [(none, .filed)] := rfl

theorem changes_transitioned (r : Record) (env : Env) (fromStatus : Claim.Status)
    (req : TransitionRequest) : changes (r.transitioned env fromStatus req) =
      changes r ++ [(some fromStatus, req.newStatus)] := by
  simp [changes, Record.transitioned, transitionHistory]

theorem resolvedOf_transitioned (r : Record) (env : Env) (fromStatus : Claim.Status)
    (req : TransitionRequest) : resolvedOf (r.transitioned env fromStatus req) =
      resolvedOf r ++ resolvedEvents env (r.claim.transitioned (env.now 0) req) req := by
  have kept : ∀ e ∈ resolvedEvents env (r.claim.transitioned (env.now 0) req) req,
      isResolved e = true := by
    intro e he
    unfold resolvedEvents at he
    split at he
    · rw [List.mem_singleton.mp he]
      rfl
    · cases he
  have dropped : ¬ isResolved (statusChangedEvent env (r.claim.transitioned (env.now 0) req)
      fromStatus req) = true := by
    simp [isResolved, statusChangedEvent, emitClaimEvent, OutboxEvent.create]
  rw [resolvedOf, Record.transitioned, List.filter_append, List.filter_cons_of_neg dropped,
    List.filter_eq_self.mpr kept]
  rfl

/-- History and outbox rows are about claims that exist. -/
structure Integrity (db : Store) : Prop where
  history : ∀ h ∈ db.history, Tables.find Claim.id db.claims h.claimId ≠ none
  outbox : ∀ e ∈ db.outbox, Tables.find Claim.id db.claims e.aggregateId ≠ none

theorem integrity_empty : Integrity ⟨[], [], []⟩ where
  history := by simp
  outbox := by simp

theorem recordOf_found {db : Store} {id : UUID} {claim : Claim}
    (h : Tables.find Claim.id db.claims id = some claim) :
    recordOf db id = some ⟨claim, historyOf db.history id, eventsOf db.outbox id⟩ := by
  rw [recordOf, h]
  rfl

/-- The events of one transition all belong to its claim. -/
theorem transitionEvents_aggregate {env : Env} {claim : Claim} {fromStatus : Claim.Status}
    {req : TransitionRequest} {e : OutboxEvent}
    (h : e ∈ statusChangedEvent env claim fromStatus req :: resolvedEvents env claim req) :
    e.aggregateId = claim.id := by
  rcases List.mem_cons.mp h with rfl | h
  · rfl
  · unfold resolvedEvents at h
    split at h
    · rw [List.mem_singleton.mp h]
      rfl
    · cases h

theorem fileClaim_records {db db' : Store} {env : Env} {data : ClaimData} (hI : Integrity db)
    (h : fileClaim db env data = .ok db') :
    ∃ claim, claim.id = env.uuid4 0 ∧ claim.status = .filed ∧ claim.approvedAmount = none ∧
      recordOf db claim.id = none ∧
      ∀ id, recordOf db' id = if id = claim.id then some (filedRecord env claim)
        else recordOf db id := by
  obtain ⟨number, fresh, rfl⟩ := fileClaim_ok h
  refine ⟨newClaim env number data, rfl, rfl, rfl, by simp [recordOf, fresh], ?_⟩
  intro id
  have ofClaim : ∀ r ∈ [filedHistory env (newClaim env number data)],
      r.claimId = env.uuid4 0 := by
    intro r hr
    rw [List.mem_singleton.mp hr]
    rfl
  have ofEvent : ∀ e ∈ [filedEvent env (newClaim env number data)],
      e.aggregateId = env.uuid4 0 := by
    intro e he
    rw [List.mem_singleton.mp he]
    rfl
  simp only [recordOf, historyOf, eventsOf, Tables.select_append ofClaim,
    Tables.select_append ofEvent, newClaim_id]
  by_cases hid : id = env.uuid4 0
  · subst hid
    have noHistory : Tables.select ClaimStatusHistory.claimId db.history (env.uuid4 0) = [] :=
      Tables.select_eq_nil.mpr (fun r hr heq => hI.history r hr (heq ▸ fresh))
    have noEvents : Tables.select OutboxEvent.aggregateId db.outbox (env.uuid4 0) = [] :=
      Tables.select_eq_nil.mpr (fun e he heq => hI.outbox e he (heq ▸ fresh))
    have found : Tables.find Claim.id (Tables.insert db.claims (newClaim env number data))
        (env.uuid4 0) = some (newClaim env number data) :=
      Tables.find_insert_self fresh
    simp [found, noHistory, noEvents, filedRecord]
  · have hother : (newClaim env number data).id ≠ id := fun he => hid he.symm
    simp only [hid, if_false, Tables.find_insert_ne hother]

theorem transitionStatus_records {db db' : Store} {env : Env} {read : Claim}
    {req : TransitionRequest} (h : transitionStatus db env read req = .ok db') :
    (∃ r, recordOf db read.id = some r) ∧
      ∀ id, recordOf db' id =
        if id = read.id then (recordOf db id).map (fun r => r.transitioned env read.status req)
        else recordOf db id := by
  obtain ⟨locked, found, hlocked, rfl⟩ := transitionStatus_ok h
  refine ⟨⟨_, recordOf_found found⟩, ?_⟩
  intro id
  have keeps : ∀ r : Claim, r.id = read.id → (r.transitioned (env.now 0) req).id = read.id :=
    fun r hr => hr
  have ofClaim : ∀ r ∈ [transitionHistory env (locked.transitioned (env.now 0) req)
      read.status req], r.claimId = read.id := by
    intro r hr
    rw [List.mem_singleton.mp hr]
    exact hlocked
  have ofEvents : ∀ e ∈ statusChangedEvent env (locked.transitioned (env.now 0) req)
      read.status req :: resolvedEvents env (locked.transitioned (env.now 0) req) req,
      e.aggregateId = read.id :=
    fun e he => (transitionEvents_aggregate he).trans hlocked
  simp only [recordOf, historyOf, eventsOf, Tables.select_append ofClaim,
    Tables.select_append ofEvents]
  by_cases hid : id = read.id
  · subst hid
    simp only [Tables.find_update_self keeps, found, Option.map_some, if_true,
      Record.transitioned]
  · simp only [if_neg hid, Tables.find_update_ne keeps hid]

/-! ## Runs of the service -/

/-- A view of a transition is of the claim asked for, and that claim exists. -/
def Known (db : Store) : (c : Call) → View c → Prop
  | .file _, _ => True
  | .transition req, read => read.id = req.pk ∧ ∃ r, recordOf db read.id = some r

theorem fileClaim_integrity {db db' : Store} {env : Env} {data : ClaimData} (hI : Integrity db)
    (h : fileClaim db env data = .ok db') : Integrity db' := by
  obtain ⟨number, fresh, rfl⟩ := fileClaim_ok h
  have created : Tables.find Claim.id (Tables.insert db.claims (newClaim env number data))
      (env.uuid4 0) = some (newClaim env number data) :=
    Tables.find_insert_self fresh
  have exists_new : Tables.find Claim.id (Tables.insert db.claims (newClaim env number data))
      (env.uuid4 0) ≠ none := by
    rw [created]
    exact Option.some_ne_none _
  constructor
  · exact Tables.forall_insert (fun r hr => Tables.find_insert_ne_none _ (hI.history r hr))
      exists_new
  · exact Tables.forall_insert (fun e he => Tables.find_insert_ne_none _ (hI.outbox e he))
      exists_new

theorem transitionStatus_integrity {db db' : Store} {env : Env} {read : Claim}
    {req : TransitionRequest} (hI : Integrity db)
    (h : transitionStatus db env read req = .ok db') : Integrity db' := by
  obtain ⟨locked, found, hlocked, rfl⟩ := transitionStatus_ok h
  have keeps : ∀ r : Claim, r.id = read.id → (r.transitioned (env.now 0) req).id = read.id :=
    fun r hr => hr
  have kept : ∀ id, Tables.find Claim.id db.claims id ≠ none →
      Tables.find Claim.id (Tables.update Claim.id db.claims read.id
        (fun row => row.transitioned (env.now 0) req)) id ≠ none :=
    fun _ => mt (Tables.find_update_eq_none keeps).mp
  have exists_read : Tables.find Claim.id db.claims locked.id ≠ none := by
    rw [hlocked, found]
    exact Option.some_ne_none locked
  constructor
  · exact Tables.forall_insert (fun r hr => kept _ (hI.history r hr)) (kept _ exists_read)
  · intro e he
    rcases List.mem_append.mp he with he | he
    · exact kept _ (hI.outbox e he)
    · rw [transitionEvents_aggregate he]
      exact kept _ exists_read

/-- A claim that has a record keeps one. -/
theorem commit_known {db db' : Store} {env : Env} {c : Call} {v : View c} (hI : Integrity db)
    (h : service.commit db env c v = .ok db') {id : UUID} (hid : ∃ r, recordOf db id = some r) :
    ∃ r, recordOf db' id = some r := by
  obtain ⟨r, hr⟩ := hid
  cases c with
  | file data =>
    obtain ⟨claim, _, _, _, fresh, records⟩ := fileClaim_records hI h
    have hne : id ≠ claim.id := by
      rintro rfl
      rw [fresh] at hr
      cases hr
    exact ⟨r, by rw [records id, if_neg hne, hr]⟩
  | transition req =>
    obtain ⟨_, records⟩ := transitionStatus_records h
    by_cases hread : id = Claim.id v
    · exact ⟨r.transitioned env (Claim.status v) req,
        by rw [records id, if_pos hread, hr, Option.map_some]⟩
    · exact ⟨r, by rw [records id, if_neg hread, hr]⟩

theorem coherent : Runs.Inductive step (Requests.Coherent service Integrity Known) := by
  apply Requests.coherent_inductive
  · intro db env c v _ hr
    cases c with
    | file data => trivial
    | transition req =>
      obtain ⟨found, hid⟩ := getObject_ok hr
      refine ⟨hid, ?_⟩
      rw [hid]
      exact ⟨_, recordOf_found found⟩
  · intro db env c v db' hI hK _ hc
    refine ⟨?_, ?_⟩
    · cases c with
      | file data => exact fileClaim_integrity hI hc
      | transition req => exact transitionStatus_integrity hI hc
    · intro c' v' hK'
      cases c' with
      | file data => trivial
      | transition req => exact ⟨hK'.1, commit_known hI hc hK'.2⟩

theorem coherent_init : Requests.Coherent service Integrity Known init :=
  Requests.coherent_init integrity_empty

/-! ## Properties of every record -/

def AllRecords (R : Record → Prop) (db : Store) : Prop :=
  ∀ id r, recordOf db id = some r → R r

/-- A condition on a committing transition: the record it extends, the claim
that was read, the request. Filing is never restricted. -/
def OnTransition (C : Record → Claim → TransitionRequest → Prop) (db : Store) :
    (c : Call) → View c → Store → Prop
  | .file _, _, _ => True
  | .transition req, read, _ => ∀ r, recordOf db (Claim.id read) = some r → C r read req

instance {C : Record → Claim → TransitionRequest → Prop}
    [decide_C : ∀ r read req, Decidable (C r read req)] (db : Store) :
    ∀ c (v : View c) db', Decidable (OnTransition C db c v db')
  | .file _, _, _ => isTrue trivial
  | .transition req, read, _ =>
    match h : recordOf db (Claim.id read) with
    | none => isTrue (fun r hr => by rw [h] at hr; cases hr)
    | some r =>
      have := decide_C r read req
      decidable_of_iff (C r read req)
        ⟨fun hC r' hr' => Option.some.inj (h.symm.trans hr') ▸ hC, fun hall => hall r h⟩

theorem allRecords_file {R : Record → Prop} {db db' : Store} {env : Env} {data : ClaimData}
    (hI : Integrity db) (h : fileClaim db env data = .ok db')
    (opens : ∀ claim, claim.status = .filed → claim.approvedAmount = none →
      R (filedRecord env claim))
    (hR : AllRecords R db) : AllRecords R db' := by
  obtain ⟨claim, _, hstatus, hamount, _, records⟩ := fileClaim_records hI h
  refine (Tables.forall_written_some_iff records rfl (fun id r _ => hR id r)).mpr ?_
  exact opens claim hstatus hamount

theorem allRecords_transition {R : Record → Prop} {db db' : Store} {env : Env} {read : Claim}
    {req : TransitionRequest} (h : transitionStatus db env read req = .ok db')
    (hR : AllRecords R db) :
    AllRecords R db' ↔ ∀ r, recordOf db read.id = some r →
      R (r.transitioned env read.status req) := by
  obtain ⟨_, records⟩ := transitionStatus_records h
  refine (Tables.forall_written_iff records (fun id r _ => hR id r)).trans ?_
  constructor
  · intro hall r hr
    exact hall _ (by rw [hr, Option.map_some])
  · intro hread r hr
    obtain ⟨r', hr', rfl⟩ := Option.map_eq_some_iff.mp hr
    exact hread r' hr'

/-- A record property that holds when a claim is filed, and that a transition
keeps exactly when `C` holds of it. -/
theorem always_allRecords_iff {R : Record → Prop} {C : Record → Claim → TransitionRequest → Prop}
    (opens : ∀ env claim, claim.status = .filed → claim.approvedAmount = none →
      R (filedRecord env claim))
    (moves_iff : ∀ env r read req, R r → checkTransition read req = .ok () →
      (R (r.transitioned env read.status req) ↔ C r read req))
    (as : List Action) :
    Runs.Always step (fun s => AllRecords R s.db) init as ↔
      Runs.Steps step (Requests.OnCommit service (OnTransition C)) init as := by
  refine Requests.always_db_iff coherent ?_ coherent_init (by intro id r hr; cases hr)
  intro db env c v db' hI hK hpass hR hc
  cases c with
  | file data => exact iff_of_true (allRecords_file hI hc (opens env) hR) trivial
  | transition req =>
    have hcheck := (service_check_transition hpass).2
    rw [allRecords_transition hc hR]
    exact forall₂_congr (fun r hr => moves_iff env r v req (hR _ r hr) hcheck)

/-- A record property that every filing and every transition keeps. -/
theorem always_allRecords {R : Record → Prop}
    (opens : ∀ env claim, claim.status = .filed → claim.approvedAmount = none →
      R (filedRecord env claim))
    (moves : ∀ env r fromStatus req, R r → R (r.transitioned env fromStatus req))
    (as : List Action) : Runs.Always step (fun s => AllRecords R s.db) init as := by
  refine (always_allRecords_iff (C := fun _ _ _ => True) opens
    (fun env r read req hR _ => iff_of_true (moves env r read.status req hR) trivial)
    as).mpr (Runs.steps_of_forall ?_)
  intro s a t n env c v db' _ _ _
  cases c with
  | file data => trivial
  | transition req => exact fun _ _ => trivial

/-- What transitions meeting `C` do not touch stays as it is from any state on. -/
theorem record_unchanged {C : Record → Claim → TransitionRequest → Prop} {r : Record}
    (blocked : ∀ read req, checkTransition read req = .ok () → ¬ C r read req)
    {pre post : List Action} {s t : State}
    (hC : Runs.Steps step (Requests.OnCommit service (OnTransition C)) init (pre ++ post))
    (hs : Runs.run step init pre = some s) (ht : Runs.run step s post = some t) {id : UUID}
    (hr : recordOf s.db id = some r) : recordOf t.db id = some r := by
  refine Runs.keeps_of_steps coherent (P := fun s => recordOf s.db id = some r)
    (fun s a t => Requests.step_keeps_db (P := fun db => recordOf db id = some r) ?_)
    coherent_init hC hs hr ht
  intro db env c v db' hI hK hpass hr hc hcond
  cases c with
  | file data =>
    obtain ⟨claim, _, _, _, fresh, records⟩ := fileClaim_records hI hc
    have hne : id ≠ claim.id := by
      rintro rfl
      rw [fresh] at hr
      cases hr
    rw [records id, if_neg hne, hr]
  | transition req =>
    have hcheck := (service_check_transition hpass).2
    obtain ⟨_, records⟩ := transitionStatus_records hc
    have hne : id ≠ Claim.id v := by
      rintro rfl
      exact blocked v req hcheck (hcond r hr)
    rw [records id, if_neg hne, hr]

/-! ## A concrete claim -/

def exampleEnv (base : Nat) : Env where
  uuid4 k := ⟨BitVec.ofNat 128 (base + k)⟩
  now _ := exampleInstant 10 0
  today := exampleDay
  verifyPolicy _ := .ok ()

def exampleData : ClaimData where
  policyId := ⟨7⟩
  claimantName := "Ana Garcia"
  claimantEmail := "ana@test.com"
  incidentDate := ⟨2025, 1, 10, by decide⟩
  incidentType := .accidente
  description := "Accidente en la A-6"
  estimatedDamage := ⟨500000, by decide⟩
  location := none

def exampleRequest (newStatus : Claim.Status) (approvedAmount : Option Amount) :
    TransitionRequest where
  pk := ⟨0⟩
  filters := ⟨none, none, none⟩
  newStatus := newStatus
  notes := ""
  approvedAmount := approvedAmount

def exampleRead (n : Nat) (req : TransitionRequest) : List Action :=
  [.call n (.transition req), .read n (exampleEnv 0)]

/-- The check and the transaction of call `n`, with identifiers of its own. -/
def exampleCommit (n : Nat) : List Action :=
  [.check n, .commit n (exampleEnv (100 * n))]

/-- Call 0 files the claim with identifier 0. -/
def exampleFiling : List Action :=
  [.call 0 (.file exampleData), .read 0 (exampleEnv 0)] ++ exampleCommit 0

theorem not_always_records {R : Record → Prop} {β : Type} {as : List Action} (f : Record → β)
    {b : β}
    (h : (Runs.run step init as).bind (fun s => (recordOf s.db ⟨0⟩).map f) = some b)
    (bad : ∀ r, f r = b → ¬ R r) :
    ¬ Runs.Always step (fun s => AllRecords R s.db) init as := by
  refine Runs.not_always_of_run h (fun s hs hall => ?_)
  obtain ⟨r, hrec, hb⟩ := Option.map_eq_some_iff.mp hs
  exact bad r hb (hall ⟨0⟩ r hrec)

end ClaimRecords
