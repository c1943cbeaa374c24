import RiskCore.ClaimService
import RiskCore.PolicyService
import RiskCore.Transactions

/-!
# Aggregate and outbox commit together

The five writing operations of the two services, statement by statement, with
their blocks nested as in the code. Each does, in one transaction, what its
function on the tables does; so whatever is raised and wherever the process
dies, the tables hold all of the call's rows or none of them.
-/

namespace Atomicity

open Values Outbox Transactions

/-! ## Outcomes -/

section Outcomes
variable {D E α : Type}

/-- Each payload is built before its `OutboxEvent.objects.create`. -/
def emit (create : OutboxEvent → D → D) : List OutboxEvent → Program D E Unit
  | [] => pure ()
  | event :: events => do
    point
    write (fun db => .ok (create event db))
    emit create events

/-- What a call of `p` leaves, where `result` writes all of its rows, `n` outbox
rows among them: the rows are written all or none, no other row of the outbox
comes with them, the outbox changes if and only if anything does, and no block
stays open. Left alone, a call that can succeed does. -/
structure AllOrNothing (outbox : D → List OutboxEvent) (p : Program D E α)
    (result : D → Except E D) (n : Nat) (faults : Faults E) (db : D) : Prop where
  either : (run p faults db).2.committed = db ∨ result db = .ok (run p faults db).2.committed
  events : ∀ db', result db = .ok db' →
    ∃ new, new.length = n ∧ outbox db' = outbox db ++ new
  together : outbox (run p faults db).2.committed = outbox db ↔
    (run p faults db).2.committed = db
  returned : ∀ a, (run p faults db).1 = .ok a → result db = .ok (run p faults db).2.committed
  idle : (run p faults db).2.Idle
  quiet : (∀ k, faults k = none) → ∀ db', result db = .ok db' →
    (run p faults db).2.committed = db'

/-- A call that settles to a function leaves all or nothing, once that function
is known to add the events or to leave everything. -/
theorem AllOrNothing.of_settles {outbox : D → List OutboxEvent} {p : Program D E α}
    {f : D → Except E (α × D)} {result : D → Except E D} {n : Nat} (h : Settles p f)
    (hresult : ∀ db, (f db).map Prod.snd = result db)
    (hevents : ∀ db db', result db = .ok db' →
      ∃ new, new.length = n ∧ outbox db' = outbox db ++ new)
    (hnone : n = 0 → ∀ db db', result db = .ok db' → db' = db) (faults : Faults E) (db : D) :
    AllOrNothing outbox p result n faults db := by
  have hidle : (⟨db, db, [], 0⟩ : World D).Idle := ⟨rfl, rfl⟩
  have hdone : ∀ a db', f db = .ok (a, db') → result db = .ok db' := by
    intro a db' hf
    rw [← hresult, hf]
    rfl
  have heither : (run p faults db).2.committed = db ∨
      result db = .ok (run p faults db).2.committed := by
    rcases h.either faults _ hidle with same | ⟨a, hf⟩
    · exact Or.inl same
    · exact Or.inr (hdone a _ hf)
  have hreturned : ∀ a, (run p faults db).1 = .ok a →
      result db = .ok (run p faults db).2.committed :=
    fun a ha => hdone a _ (h.ends faults _ a hidle ha)
  refine ⟨heither, hevents db, ⟨?_, fun same => by rw [same]⟩, hreturned, h.idle faults _ hidle, ?_⟩
  · intro same
    rcases heither with unchanged | changed
    · exact unchanged
    · obtain ⟨new, hlength, happ⟩ := hevents db _ changed
      have hnew : new = [] := by simpa [same] using happ
      exact hnone (by simp [← hlength, hnew]) db _ changed
  · intro quiet db' hdb'
    have hq := h.quiet faults _ hidle quiet
    have hf : ∃ a, f db = .ok (a, db') := by
      rw [← hresult] at hdb'
      cases hfd : f db with
      | error e =>
        rw [hfd] at hdb'
        cases hdb'
      | ok r =>
        rw [hfd] at hdb'
        cases hdb'
        exact ⟨r.1, rfl⟩
    obtain ⟨a, hf⟩ := hf
    simp only [hf] at hq
    exact Except.ok.inj ((hreturned a hq).symm.trans hdb')

theorem emit_follows (create : OutboxEvent → D → D) (events : List OutboxEvent) :
    Follows (E := E) (emit create events)
      (fun db => .ok ((), events.foldl (fun db event => create event db) db)) := by
  induction events with
  | nil => exact Follows.pure ()
  | cons event events ih =>
    exact Follows.point.bind (fun _ => Follows.bind_write ih)

end Outcomes

/-! ## claims-service -/

section Claims
open ClaimService

def createClaimEvent (event : OutboxEvent) (db : Store) : Store :=
  { db with outbox := db.outbox ++ [event] }

def fileClaimBlock (env : Env) (data : ClaimData) : Program Store ClaimError Claim := do
  -- the savepoint of `generate_claim_number`, which `Claim.save` calls
  let number ← atomic (read (fun db => generateClaimNumber db.claims (env.now 0).date.year))
  let claim := newClaim env number data
  write (fun db => (insertClaim db.claims claim).map (fun claims => { db with claims := claims }))
  write (fun db => .ok { db with history := db.history ++ [filedHistory env claim] })
  emit createClaimEvent [filedEvent env claim]
  return claim

/-- `ClaimService.file_claim`; the metric and the log line come last. -/
def fileClaimCall (env : Env) (data : ClaimData) : Program Store ClaimError Claim := do
  read (fun _ => env.verifyPolicy data.policyId)
  closing (atomic (fileClaimBlock env data))

def transitionStatusBlock (env : Env) (claim : Claim) (req : TransitionRequest) :
    Program Store ClaimError Claim := do
  let locked ← read (fun db =>
    match Tables.find Claim.id db.claims claim.id with
    | some locked => .ok locked
    | none => .error (.doesNotExist claim.id))
  let saved := locked.transitioned (env.now 0) req
  write (fun db => .ok { db with
    claims := Tables.update Claim.id db.claims claim.id
      (fun row => row.transitioned (env.now 0) req) })
  write (fun db => .ok { db with
    history := db.history ++ [transitionHistory env saved claim.status req] })
  emit createClaimEvent (statusChangedEvent env saved claim.status req ::
    resolvedEvents env saved req)
  return saved

/-- `ClaimService.transition_status` on the claim the view has read. -/
def transitionStatusCall (env : Env) (claim : Claim) (req : TransitionRequest) :
    Program Store ClaimError Claim := do
  read (fun _ => checkTransition claim req)
  closing (atomic (transitionStatusBlock env claim req))

inductive ClaimOperation where
  | fileClaim (data : ClaimData)
  | transitionStatus (claim : Claim) (req : TransitionRequest)

def ClaimOperation.call (env : Env) : ClaimOperation → Program Store ClaimError Claim
  | .fileClaim data => fileClaimCall env data
  | .transitionStatus claim req => transitionStatusCall env claim req

/-- The operation as a function on the tables. -/
def ClaimOperation.result (env : Env) (db : Store) : ClaimOperation → Except ClaimError Store
  | .fileClaim data => do
    env.verifyPolicy data.policyId
    ClaimService.fileClaim db env data
  | .transitionStatus claim req => do
    checkTransition claim req
    ClaimService.transitionStatus db env claim req

def ClaimOperation.events : ClaimOperation → Nat
  | .fileClaim _ => 1
  | .transitionStatus _ req => if req.newStatus = .resolved then 2 else 1

theorem fileClaimBlock_follows (env : Env) (data : ClaimData) :
    ∃ f, Follows (fileClaimBlock env data) f ∧
      ∀ db, (f db).map Prod.snd = ClaimService.fileClaim db env data := by
  refine ⟨_, (Follows.read _).atomic.bind (fun number => Follows.bind_write
    (Follows.bind_write ((emit_follows _ _).bind (fun _ => Follows.pure _)))), ?_⟩
  intro db
  simp only [ClaimService.fileClaim]
  cases generateClaimNumber db.claims (env.now 0).date.year with
  | error e => rfl
  | ok number =>
    simp only [Except.map, Except.bind, bind]
    cases insertClaim db.claims (newClaim env number data) <;> rfl

theorem transitionStatusBlock_follows (env : Env) (claim : Claim) (req : TransitionRequest) :
    ∃ f, Follows (transitionStatusBlock env claim req) f ∧
      ∀ db, (f db).map Prod.snd = ClaimService.transitionStatus db env claim req := by
  refine ⟨_, (Follows.read _).bind (fun locked => Follows.bind_write
    (Follows.bind_write ((emit_follows _ _).bind (fun _ => Follows.pure _)))), ?_⟩
  intro db
  simp only [ClaimService.transitionStatus]
  cases Tables.find Claim.id db.claims claim.id with
  | none => rfl
  | some locked =>
    simp only [Except.map, Except.bind, resolvedEvents]
    by_cases resolving : req.newStatus = .resolved
    · simp [resolving, createClaimEvent]
    · simp [resolving, createClaimEvent]

theorem ClaimOperation.settles (env : Env) (op : ClaimOperation) :
    ∃ f, Settles (op.call env) f ∧ ∀ db, (f db).map Prod.snd = op.result env db := by
  cases op with
  | fileClaim data =>
    obtain ⟨f, hf, hresult⟩ := fileClaimBlock_follows env data
    refine ⟨_, Settles.after_read (fun _ => hf.settles.closing), ?_⟩
    intro db
    simp only [ClaimOperation.result, bind]
    cases env.verifyPolicy data.policyId with
    | error e => rfl
    | ok _ => exact hresult db
  | transitionStatus claim req =>
    obtain ⟨f, hf, hresult⟩ := transitionStatusBlock_follows env claim req
    refine ⟨_, Settles.after_read (fun _ => hf.settles.closing), ?_⟩
    intro db
    simp only [ClaimOperation.result, bind]
    cases checkTransition claim req with
    | error e => rfl
    | ok _ => exact hresult db

theorem ClaimOperation.result_events {env : Env} {op : ClaimOperation} {db db' : Store}
    (h : op.result env db = .ok db') :
    ∃ new, new.length = op.events ∧ db'.outbox = db.outbox ++ new := by
  cases op with
  | fileClaim data =>
    simp only [ClaimOperation.result, bind] at h
    cases hv : env.verifyPolicy data.policyId with
    | error e =>
      rw [hv] at h
      cases h
    | ok _ =>
      rw [hv] at h
      obtain ⟨number, -, rfl⟩ := fileClaim_ok h
      exact ⟨_, rfl, rfl⟩
  | transitionStatus claim req =>
    simp only [ClaimOperation.result, bind] at h
    cases hc : checkTransition claim req with
    | error e =>
      rw [hc] at h
      cases h
    | ok _ =>
      rw [hc] at h
      simp only [Except.bind, ClaimService.transitionStatus] at h
      split at h
      · cases h
      · cases h
        refine ⟨_, ?_, rfl⟩
        by_cases resolving : req.newStatus = .resolved
        · simp [ClaimOperation.events, resolvedEvents, resolving]
        · simp [ClaimOperation.events, resolvedEvents, resolving]

theorem ClaimOperation.events_pos (op : ClaimOperation) : op.events ≠ 0 := by
  cases op with
  | fileClaim data => exact Nat.one_ne_zero
  | transitionStatus claim req =>
    by_cases resolving : req.newStatus = .resolved
    · simp [ClaimOperation.events, resolving]
    · simp [ClaimOperation.events, resolving]

end Claims

/-! ## policy-service -/

section Policies
open PolicyService

def createPolicyEvent (event : OutboxEvent) (db : Store) : Store :=
  { db with outbox := db.outbox ++ [event] }

/-- `generate_policy_number`: `nextval` is one statement and leaves the tables
alone; other databases are read in a savepoint. -/
def policyNumber (env : Env) : Program Store PolicyError String :=
  let number := read (fun db => generatePolicyNumber env.connection db.policies
    (env.now 0).date.year)
  match env.connection with
  | .postgresql _ => number
  | .other => atomic number

def createPolicyBlock (env : Env) (customer : Customer) (data : PolicyData)
    (coverages : List CoverageData) : Program Store PolicyError Policy := do
  let number ← policyNumber env
  let policy := newPolicy env customer number data
  write (fun db =>
    (insertPolicy db.policies policy).map (fun policies => { db with policies := policies }))
  writes ((newCoverages env policy coverages).map (fun coverage db =>
    .ok { db with coverages := db.coverages ++ [coverage] }))
  emit createPolicyEvent [createdEvent env coverages.length policy]
  return policy

/-- `PolicyService.create_policy`; the metric and the log line come last. -/
def createPolicyCall (env : Env) (data : PolicyData) (coverages : List CoverageData) :
    Program Store PolicyError Policy := do
  let customer ← read (fun db => getCustomer db data.customerId)
  closing (atomic (createPolicyBlock env customer data coverages))

def updatePolicyBlock (env : Env) (policy : Policy) (fields : List Policy.Column) :
    Program Store PolicyError Policy := do
  write (fun db =>
    match Tables.find Policy.id db.policies policy.id with
    | none => .error (.noRowsUpdated policy.id)
    | some _ => .ok { db with
        policies := Tables.update Policy.id db.policies policy.id
          (fun row => row.saveFields policy fields) })
  emit createPolicyEvent [updatedEvent env policy]
  return policy

/-- `PolicyService.update_policy` on the policy the view has read. -/
def updatePolicyCall (env : Env) (policy : Policy) (data : Data) :
    Program Store PolicyError Policy := do
  read (fun _ => checkUpdatable policy)
  if changedFields data = [] then return policy
  else atomic (updatePolicyBlock env (policy.updated (env.now 0) data)
    (changedFields data ++ [.updatedAt]))

def cancelPolicyBlock (env : Env) (policy : Policy) (reason : String) :
    Program Store PolicyError Policy := do
  let locked ← read (fun db =>
    match Tables.find Policy.id db.policies policy.id with
    | some locked => .ok locked
    | none => .error (.doesNotExist policy.id))
  read (fun _ => checkCancelable locked)
  let saved := locked.cancelled (env.now 0) reason
  write (fun db => .ok { db with
    policies := Tables.update Policy.id db.policies saved.id
      (fun row => row.saveFields saved [.status, .cancellationReason, .updatedAt]) })
  emit createPolicyEvent [cancelledEvent env saved]
  return saved

/-- `PolicyService.cancel_policy` on the policy the view has read. -/
def cancelPolicyCall (env : Env) (policy : Policy) (reason : String) :
    Program Store PolicyError Policy := do
  read (fun _ => checkCancelable policy)
  closing (atomic (cancelPolicyBlock env policy reason))

inductive PolicyOperation where
  | createPolicy (data : PolicyData) (coverages : List CoverageData)
  | updatePolicy (policy : Policy) (data : Data)
  | cancelPolicy (policy : Policy) (reason : String)

def PolicyOperation.call (env : Env) : PolicyOperation → Program Store PolicyError Policy
  | .createPolicy data coverages => createPolicyCall env data coverages
  | .updatePolicy policy data => updatePolicyCall env policy data
  | .cancelPolicy policy reason => cancelPolicyCall env policy reason

/-- The operation as a function on the tables. -/
def PolicyOperation.result (env : Env) (db : Store) :
    PolicyOperation → Except PolicyError Store
  | .createPolicy data coverages => do
    let customer ← getCustomer db data.customerId
    PolicyService.createPolicy db env customer data coverages
  | .updatePolicy policy data => do
    checkUpdatable policy
    PolicyService.updatePolicy db env policy data
  | .cancelPolicy policy reason => do
    checkCancelable policy
    PolicyService.cancelPolicy db env policy reason

def PolicyOperation.events : PolicyOperation → Nat
  | .createPolicy _ _ => 1
  | .updatePolicy _ data => if changedFields data = [] then 0 else 1
  | .cancelPolicy _ _ => 1

theorem policyNumber_follows (env : Env) :
    Follows (policyNumber env) (fun db =>
      (generatePolicyNumber env.connection db.policies (env.now 0).date.year).map
        (fun number => (number, db))) := by
  unfold policyNumber
  cases env.connection with
  | postgresql nextval => exact Follows.read _
  | other => exact (Follows.read _).atomic

theorem inTurn_coverages (db : Store) (coverages : List Coverage) :
    inTurn (E := PolicyError) (coverages.map (fun coverage (db : Store) =>
      Except.ok { db with coverages := db.coverages ++ [coverage] })) db =
      .ok { db with coverages := db.coverages ++ coverages } := by
  induction coverages generalizing db with
  | nil => simp [inTurn]
  | cons coverage coverages ih =>
    simp only [List.map_cons, inTurn, Except.bind, ih]
    simp

theorem createPolicyBlock_follows (env : Env) (customer : Customer) (data : PolicyData)
    (coverages : List CoverageData) :
    ∃ f, Follows (createPolicyBlock env customer data coverages) f ∧
      ∀ db, (f db).map Prod.snd =
        PolicyService.createPolicy db env customer data coverages := by
  refine ⟨_, (policyNumber_follows env).bind (fun number => Follows.bind_write
    ((Follows.writes _).bind (fun _ => (emit_follows _ _).bind (fun _ => Follows.pure _)))), ?_⟩
  intro db
  simp only [PolicyService.createPolicy, inTurn_coverages]
  cases generatePolicyNumber env.connection db.policies (env.now 0).date.year with
  | error e => rfl
  | ok number =>
    simp only [Except.map, Except.bind, bind]
    cases insertPolicy db.policies (newPolicy env customer number data) <;> rfl

theorem updatePolicyBlock_follows (env : Env) (policy : Policy) (fields : List Policy.Column) :
    ∃ f, Follows (updatePolicyBlock env policy fields) f ∧
      ∀ db, (f db).map Prod.snd = match Tables.find Policy.id db.policies policy.id with
        | none => .error (.noRowsUpdated policy.id)
        | some _ => .ok { db with
            policies := Tables.update Policy.id db.policies policy.id
              (fun row => row.saveFields policy fields)
            outbox := db.outbox ++ [updatedEvent env policy] } := by
  refine ⟨_, Follows.bind_write ((emit_follows _ _).bind (fun _ => Follows.pure _)), ?_⟩
  intro db
  cases Tables.find Policy.id db.policies policy.id <;> rfl

theorem cancelPolicyBlock_follows (env : Env) (policy : Policy) (reason : String) :
    ∃ f, Follows (cancelPolicyBlock env policy reason) f ∧
      ∀ db, (f db).map Prod.snd = PolicyService.cancelPolicy db env policy reason := by
  refine ⟨_, (Follows.read _).bind (fun locked => (Follows.read _).bind (fun _ =>
    Follows.bind_write ((emit_follows _ _).bind (fun _ => Follows.pure _)))), ?_⟩
  intro db
  simp only [PolicyService.cancelPolicy]
  cases Tables.find Policy.id db.policies policy.id with
  | none => rfl
  | some locked =>
    simp only [Except.map, Except.bind, bind]
    cases checkCancelable locked <;> rfl

theorem PolicyOperation.settles (env : Env) (op : PolicyOperation) :
    ∃ f, Settles (op.call env) f ∧ ∀ db, (f db).map Prod.snd = op.result env db := by
  cases op with
  | createPolicy data coverages =>
    have hblock := fun customer => createPolicyBlock_follows env customer data coverages
    choose f hf hresult using hblock
    refine ⟨_, Settles.after_read (fun customer => (hf customer).settles.closing), ?_⟩
    intro db
    simp only [PolicyOperation.result, bind]
    cases getCustomer db data.customerId with
    | error e => rfl
    | ok customer => exact hresult customer db
  | updatePolicy policy data =>
    by_cases none_changed : changedFields data = []
    · refine ⟨fun db => (checkUpdatable policy).bind (fun _ => .ok (policy, db)), ?_, ?_⟩
      · have hcall : PolicyOperation.call env (.updatePolicy policy data) =
            (do read (fun _ => checkUpdatable policy); return policy) := by
          simp only [PolicyOperation.call, updatePolicyCall, if_pos none_changed]
        rw [hcall]
        exact Settles.after_read (fun _ => Settles.pure policy)
      · intro db
        simp only [PolicyOperation.result, PolicyService.updatePolicy, if_pos none_changed]
        cases checkUpdatable policy <;> rfl
    · obtain ⟨f, hf, hresult⟩ := updatePolicyBlock_follows env
        (policy.updated (env.now 0) data) (changedFields data ++ [.updatedAt])
      refine ⟨fun db => (checkUpdatable policy).bind (fun _ => f db), ?_, ?_⟩
      · have hcall : PolicyOperation.call env (.updatePolicy policy data) =
            (do read (fun _ => checkUpdatable policy)
                atomic (updatePolicyBlock env (policy.updated (env.now 0) data)
                  (changedFields data ++ [.updatedAt]))) := by
          simp only [PolicyOperation.call, updatePolicyCall, if_neg none_changed]
        rw [hcall]
        exact Settles.after_read (fun _ => hf.settles)
      · intro db
        simp only [PolicyOperation.result, PolicyService.updatePolicy, if_neg none_changed]
        cases checkUpdatable policy with
        | error e => rfl
        | ok _ => exact hresult db
  | cancelPolicy policy reason =>
    obtain ⟨f, hf, hresult⟩ := cancelPolicyBlock_follows env policy reason
    refine ⟨_, Settles.after_read (fun _ => hf.settles.closing), ?_⟩
    intro db
    simp only [PolicyOperation.result, bind]
    cases checkCancelable policy with
    | error e => rfl
    | ok _ => exact hresult db

theorem PolicyOperation.result_events {env : Env} {op : PolicyOperation} {db db' : Store}
    (h : op.result env db = .ok db') :
    ∃ new, new.length = op.events ∧ db'.outbox = db.outbox ++ new := by
  cases op with
  | createPolicy data coverages =>
    simp only [PolicyOperation.result, bind] at h
    cases hc : getCustomer db data.customerId with
    | error e =>
      rw [hc] at h
      cases h
    | ok customer =>
      rw [hc] at h
      obtain ⟨number, -, rfl⟩ := createPolicy_ok h
      exact ⟨_, rfl, rfl⟩
  | updatePolicy policy data =>
    simp only [PolicyOperation.result, bind] at h
    cases hc : checkUpdatable policy with
    | error e =>
      rw [hc] at h
      cases h
    | ok _ =>
      rw [hc] at h
      rcases updatePolicy_ok h with ⟨none_changed, rfl⟩ | ⟨changed, row, -, rfl⟩
      · exact ⟨[], by simp [PolicyOperation.events, none_changed], by simp⟩
      · exact ⟨_, by simp [PolicyOperation.events, changed], rfl⟩
  | cancelPolicy policy reason =>
    simp only [PolicyOperation.result, bind] at h
    cases hc : checkCancelable policy with
    | error e =>
      rw [hc] at h
      cases h
    | ok _ =>
      rw [hc] at h
      obtain ⟨locked, -, -, -, rfl⟩ := cancelPolicy_ok h
      exact ⟨_, rfl, rfl⟩

/-- Only an update without updatable fields has no event, and it writes nothing. -/
theorem PolicyOperation.result_same {env : Env} {op : PolicyOperation} (h : op.events = 0)
    {db db' : Store} (hresult : op.result env db = .ok db') : db' = db := by
  cases op with
  | createPolicy data coverages => cases h
  | cancelPolicy policy reason => cases h
  | updatePolicy policy data =>
    have none_changed : changedFields data = [] := by
      by_contra changed
      simp [PolicyOperation.events, changed] at h
    simp only [PolicyOperation.result, bind] at hresult
    cases hc : checkUpdatable policy with
    | error e =>
      rw [hc] at hresult
      cases hresult
    | ok _ =>
      rw [hc] at hresult
      rcases updatePolicy_ok hresult with ⟨-, rfl⟩ | ⟨changed, -⟩
      · rfl
      · exact absurd none_changed changed

end Policies

theorem aggregate_and_outbox_commit_together :
    (∀ (env : ClaimService.Env) (op : ClaimOperation)
        (faults : Faults ClaimService.ClaimError) (db : ClaimService.Store),
      AllOrNothing ClaimService.Store.outbox (op.call env) (fun db => op.result env db) op.events
        faults db) ∧
    ∀ (env : PolicyService.Env) (op : PolicyOperation)
        (faults : Faults PolicyService.PolicyError) (db : PolicyService.Store),
      AllOrNothing PolicyService.Store.outbox (op.call env) (fun db => op.result env db) op.events
        faults db := by
  constructor
  · intro env op faults db
    obtain ⟨f, hf, hresult⟩ := op.settles env
    exact .of_settles hf hresult (fun _ _ => op.result_events)
      (fun none => absurd none op.events_pos) faults db
  · intro env op faults db
    obtain ⟨f, hf, hresult⟩ := op.settles env
    exact .of_settles hf hresult (fun _ _ => op.result_events)
      (fun none _ _ => op.result_same none) faults db

end Atomicity
