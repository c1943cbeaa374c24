import RiskCore.ClaimRecords
import RiskCore.PolicyClient
import RiskCore.PolicyRecords

/-!
# Filing a claim across two services

`file_claim` asks policy-service about the policy and commits the claim
afterwards. Between the request, policy-service's read of the row, the answer and
the commit anything else may happen in both services. The breaker of a call is in
any state; a request or its answer may be lost, and something on the way may
answer in place of policy-service, though not with success.
-/

namespace FilingVerification

open Values Outbox PolicyService PolicyClient

/-! ## `/verify/` in policy-service -/

structure PolicyNotFoundError where
  policyId : UUID

/-- What `PolicyService.verify_policy` returns. -/
structure Verification where
  policyId : UUID
  status : Policy.Status
  isValid : Bool
  customerId : UUID
  policyType : Policy.PolicyType

/-- `PolicyService.verify_policy`. -/
def verifyPolicy (policies : List Policy) (policyId : UUID) :
    Except PolicyNotFoundError Verification :=
  match Tables.find Policy.id policies policyId with
  | some policy => .ok {
      policyId := policy.id
      status := policy.status
      isValid := policy.status = .active
      customerId := policy.customerId
      policyType := policy.policyType }
  | none => .error ⟨policyId⟩

/-- `PolicyVerifySerializer`. -/
def serialize (v : Verification) : Json :=
  .obj [("policy_id", .str v.policyId.str),
    ("status", .str v.status.value),
    ("is_valid", .bool v.isValid),
    ("customer_id", .str v.customerId.str)]

/-- The body `custom_exception_handler` gives a 404. -/
def notFoundBody (e : PolicyNotFoundError) (requestId : String) : Json :=
  .obj [("error", .obj [("code", .str "POLICY_NOT_FOUND"),
      ("message", .str "La póliza solicitada no existe."),
      ("details", .obj [("policy_id", .str e.policyId.str)])]),
    ("request_id", .str requestId)]

/-- `PolicyViewSet.verify`. -/
def verify (policies : List Policy) (policyId : UUID) (requestId : String) : Upstream :=
  match verifyPolicy policies policyId with
  | .ok v => .response 200 (some (serialize v))
  | .error e => .response 404 (some (notFoundBody e requestId))

/-! ## The two services -/

/-- An answer that is no success. -/
def unsuccessful : Upstream → Bool
  | .requestError => true
  | .response status _ => !isSuccess status

/-- Where a `file_claim` call stands. -/
inductive Phase where
  | idle
  | verifying (data : ClaimService.ClaimData)
  | answered (data : ClaimService.ClaimData) (upstream : Upstream)
  | verified (data : ClaimService.ClaimData)
  | committed (data : ClaimService.ClaimData)
  | failed (data : ClaimService.ClaimData)

/-- The data of a call that waits for an answer. -/
def Phase.waiting : Phase → Option ClaimService.ClaimData
  | .verifying data => some data
  | .answered data _ => some data
  | _ => none

/-- The data of a call that can still fail. -/
def Phase.pending : Phase → Option ClaimService.ClaimData
  | .verified data => some data
  | p => p.waiting

structure State where
  policy : PolicyService.State
  claims : ClaimService.Store
  calls : Nat → Phase

/-- A step of policy-service, or of the `n`-th call of `file_claim`. -/
inductive Action where
  | policy (a : PolicyService.Action)
  | file (n : Nat) (data : ClaimService.ClaimData)
  | serve (n : Nat) (requestId : String)
  | disturb (n : Nat) (upstream : Upstream)
  | verify (n : Nat) (breaker : CircuitBreaker.Breaker) (elapsed : Bool)
  | commit (n : Nat) (env : ClaimService.Env)
  | abort (n : Nat)

/-- Policy-service with some tables and no calls, and any claims. -/
def start (policies : PolicyService.Store) (claims : ClaimService.Store) : State :=
  ⟨PolicyService.start policies, claims, fun _ => .idle⟩

def State.put (s : State) (n : Nat) (p : Phase) : State :=
  { s with calls := Function.update s.calls n p }

def step (validate : Call → Except PolicyError Unit) (s : State) : Action → Option State
  | .policy a => (PolicyService.step validate s.policy a).map (fun t => { s with policy := t })
  | .file n data =>
    match s.calls n with
    | .idle => some (s.put n (.verifying data))
    | _ => none
  | .serve n requestId =>
    match s.calls n with
    | .verifying data =>
      some (s.put n (.answered data (verify s.policy.db.policies data.policyId requestId)))
    | _ => none
  | .disturb n upstream =>
    match (s.calls n).waiting with
    | some data => if unsuccessful upstream then some (s.put n (.answered data upstream)) else none
    | none => none
  | .verify n breaker elapsed =>
    match s.calls n with
    | .verifying data =>
      -- a refused call sends no request
      if breaker.lets elapsed then none else some (s.put n (.failed data))
    | .answered data upstream =>
      match (PolicyClient.verifyPolicy breaker elapsed data.policyId upstream).2 with
      | .ok _ => some (s.put n (.verified data))
      | .error _ => some (s.put n (.failed data))
    | _ => none
  | .commit n env =>
    match s.calls n with
    | .verified data =>
      match ClaimService.fileClaim s.claims env data with
      | .ok claims => some { s.put n (.committed data) with claims := claims }
      | .error _ => some (s.put n (.failed data))
    | _ => none
  | .abort n =>
    match (s.calls n).pending with
    | some data => some (s.put n (.failed data))
    | none => none

variable {validate : Call → Except PolicyError Unit}

/-- What one step can do; any step of a call but the commit may end it. -/
inductive Step (validate : Call → Except PolicyError Unit) (s : State) : Action → State → Prop where
  | policy {a t} (h : PolicyService.step validate s.policy a = some t) :
      Step validate s (.policy a) { s with policy := t }
  | file {n data} (at_n : s.calls n = .idle) :
      Step validate s (.file n data) (s.put n (.verifying data))
  | serve {n data requestId} (at_n : s.calls n = .verifying data) :
      Step validate s (.serve n requestId)
        (s.put n (.answered data (verify s.policy.db.policies data.policyId requestId)))
  | disturb {n data upstream} (at_n : (s.calls n).waiting = some data)
      (h : unsuccessful upstream = true) :
      Step validate s (.disturb n upstream) (s.put n (.answered data upstream))
  | verified {n breaker elapsed data upstream answer} (at_n : s.calls n = .answered data upstream)
      (h : (PolicyClient.verifyPolicy breaker elapsed data.policyId upstream).2 = .ok answer) :
      Step validate s (.verify n breaker elapsed) (s.put n (.verified data))
  | committed {n env data claims} (at_n : s.calls n = .verified data)
      (h : ClaimService.fileClaim s.claims env data = .ok claims) :
      Step validate s (.commit n env) { s.put n (.committed data) with claims := claims }
  | failed {a n data} (at_n : (s.calls n).pending = some data) :
      Step validate s a (s.put n (.failed data))

theorem step_sound {s t : State} {a : Action} (h : step validate s a = some t) :
    Step validate s a t := by
  cases a with
  | policy a =>
    obtain ⟨t, ht, rfl⟩ := Option.map_eq_some_iff.mp h
    exact .policy ht
  | file n data =>
    simp only [step] at h
    split at h
    · rename_i at_n
      cases h
      exact .file at_n
    · cases h
  | serve n requestId =>
    simp only [step] at h
    split at h
    · rename_i data at_n
      cases h
      exact .serve at_n
    · cases h
  | disturb n upstream =>
    simp only [step] at h
    split at h
    · rename_i data at_n
      split at h
      · rename_i failed
        cases h
        exact .disturb at_n failed
      · cases h
    · cases h
  | verify n breaker elapsed =>
    simp only [step] at h
    split at h
    · rename_i data at_n
      split at h
      · cases h
      · cases h
        exact .failed (by rw [at_n]; rfl)
    · rename_i data upstream at_n
      split at h
      · rename_i answer ok
        cases h
        exact .verified at_n ok
      · cases h
        exact .failed (by rw [at_n]; rfl)
    · cases h
  | commit n env =>
    simp only [step] at h
    split at h
    · rename_i data at_n
      split at h
      · rename_i claims ok
        cases h
        exact .committed at_n ok
      · cases h
        exact .failed (by rw [at_n]; rfl)
    · cases h
  | abort n =>
    simp only [step] at h
    split at h
    · rename_i data at_n
      cases h
      exact .failed at_n
    · cases h

@[simp] theorem State.put_self (s : State) (n : Nat) (p : Phase) : (s.put n p).calls n = p := by
  simp [State.put]

@[simp] theorem State.put_other (s : State) {n m : Nat} (h : m ≠ n) (p : Phase) :
    (s.put n p).calls m = s.calls m := by
  simp [State.put, h]

/-! ## Answers that let a call go on -/

/-- `verify_policy` returns on this answer, whatever the breaker. -/
def Accepted (policyId : UUID) (upstream : Upstream) : Prop :=
  ∃ breaker elapsed answer,
    (PolicyClient.verifyPolicy breaker elapsed policyId upstream).2 = .ok answer

theorem not_accepted_unsuccessful {policyId : UUID} {upstream : Upstream}
    (h : unsuccessful upstream = true) : ¬ Accepted policyId upstream := by
  rintro ⟨breaker, elapsed, answer, ok⟩
  obtain ⟨status, isValid, rfl, success, _⟩ := verifyPolicy_ok ok
  simp [unsuccessful, success] at h

/-- Policy-service lets a call go on only when it reads an active policy. -/
theorem active_of_accepted {policies : List Policy} {policyId : UUID} {requestId : String}
    (h : Accepted policyId (verify policies policyId requestId)) :
    ∃ policy, Tables.find Policy.id policies policyId = some policy ∧ policy.status = .active := by
  obtain ⟨breaker, elapsed, answer, ok⟩ := h
  obtain ⟨status, isValid, hupstream, success, hget, valid⟩ := verifyPolicy_ok ok
  cases hfind : Tables.find Policy.id policies policyId with
  | none =>
    rw [verify, verifyPolicy, hfind] at hupstream
    cases hupstream
    cases success
  | some policy =>
    rw [verify, verifyPolicy, hfind] at hupstream
    cases hupstream
    cases hget
    exact ⟨policy, rfl, of_decide_eq_true valid⟩

/-! ## Cancelled for good -/

open PolicyRecords in
/-- The invariant of policy-service. -/
def Sound (validate : Call → Except PolicyError Unit) (s : State) : Prop :=
  Requests.Coherent (service validate) Integrity (Known validate) s.policy

open PolicyRecords in
def Cancelled (s : State) (policyId : UUID) : Prop := Since s.policy.db policyId .cancelled

theorem sound_start (policies : PolicyService.Store) (claims : ClaimService.Store) :
    Sound validate (start policies claims) := PolicyRecords.coherent_start policies

/-- A step of the whole is a step of policy-service or leaves it alone. -/
theorem step_policy {s t : State} {a : Action} (h : step validate s a = some t) :
    t.policy = s.policy ∨ ∃ b, PolicyService.step validate s.policy b = some t.policy := by
  cases step_sound h with
  | @policy b u hb => exact Or.inr ⟨b, hb⟩
  | _ => exact Or.inl rfl

theorem sound_step : Runs.Inductive (step validate) (Sound validate) := by
  intro s a t hs h
  rcases step_policy h with same | ⟨b, hb⟩
  · rw [Sound, same]
    exact hs
  · exact PolicyRecords.coherent validate _ _ _ hs hb

theorem cancelled_step {s t : State} {a : Action} {policyId : UUID} (hs : Sound validate s)
    (hc : Cancelled s policyId) (h : step validate s a = some t) : Cancelled t policyId := by
  rcases step_policy h with same | ⟨b, hb⟩
  · rw [Cancelled, same]
    exact hc
  · rcases Requests.step_db hb with ⟨same, _⟩ | ⟨n, env, c, v, rfl, _, hcommit, _⟩
    · rw [Cancelled, same]
      exact hc
    · exact PolicyRecords.since_commit hs.db hcommit hc

/-- A cancelled policy is not read as active. -/
theorem Cancelled.not_active {s : State} {policyId : UUID} (hc : Cancelled s policyId)
    {policy : Policy} (hfind : Tables.find Policy.id s.policy.db.policies policyId = some policy) :
    policy.status ≠ .active := by
  obtain ⟨r, hr, hstatus⟩ := hc
  cases (PolicyRecords.recordOf_found hfind).symm.trans hr
  rw [or_self] at hstatus
  rw [hstatus]
  simp

/-! ## Calls that cannot commit -/

/-- Call `n` has no answer for the policy that would let it go on. -/
def Phase.Blocked (policyId : UUID) : Phase → Prop
  | .answered data upstream => data.policyId = policyId → ¬ Accepted policyId upstream
  | .verified data => data.policyId ≠ policyId
  | .committed data => data.policyId ≠ policyId
  | _ => True

theorem blocked_step {s t : State} {a : Action} {policyId : UUID} {n : Nat}
    (hc : Cancelled s policyId) (hn : (s.calls n).Blocked policyId)
    (h : step validate s a = some t) : (t.calls n).Blocked policyId := by
  -- the step sets the phase of call `m`
  have put : ∀ m p, (m = n → Phase.Blocked policyId p) →
      ((s.put m p).calls n).Blocked policyId := by
    intro m p hp
    by_cases hm : n = m
    · subst hm
      rw [State.put_self]
      exact hp rfl
    · rw [State.put_other s hm]
      exact hn
  cases step_sound h with
  | policy h => exact hn
  | file at_m => exact put _ _ (fun _ => trivial)
  | serve at_m =>
    refine put _ _ (fun _ hid accepted => ?_)
    subst hid
    obtain ⟨policy, hfind, active⟩ := active_of_accepted accepted
    exact hc.not_active hfind active
  | disturb at_m failed => exact put _ _ (fun _ _ => not_accepted_unsuccessful failed)
  | verified at_m ok =>
    refine put _ _ (fun hm hid => ?_)
    subst hm
    rw [at_m] at hn
    exact hn hid ⟨_, _, _, hid ▸ ok⟩
  | committed at_m ok =>
    refine put _ _ (fun hm hid => ?_)
    subst hm
    rw [at_m] at hn
    exact hn hid
  | failed at_m => exact put _ _ (fun _ => trivial)

/-! ## What led to a commit -/

def Started (n : Nat) (data : ClaimService.ClaimData) (as : List Action) : Prop :=
  ∃ pre mid, as = pre ++ .file n data :: mid

/-- Among the actions taken from `s₀`, call `n` was started and then served when
its policy was active. -/
def ReadActive (validate : Call → Except PolicyError Unit) (s₀ : State) (n : Nat)
    (data : ClaimService.ClaimData) (as : List Action) : Prop :=
  ∃ pre mid requestId post s policy,
    as = pre ++ .file n data :: (mid ++ .serve n requestId :: post) ∧
    Runs.run (step validate) s₀ (pre ++ .file n data :: mid) = some s ∧
    Tables.find Policy.id s.policy.db.policies data.policyId = some policy ∧
    policy.status = .active

theorem Started.snoc {n : Nat} {data : ClaimService.ClaimData} {as : List Action}
    (h : Started n data as) (a : Action) : Started n data (as ++ [a]) := by
  obtain ⟨pre, mid, rfl⟩ := h
  exact ⟨pre, mid ++ [a], by simp⟩

theorem ReadActive.snoc {s₀ : State} {n : Nat} {data : ClaimService.ClaimData} {as : List Action}
    (h : ReadActive validate s₀ n data as) (a : Action) :
    ReadActive validate s₀ n data (as ++ [a]) := by
  obtain ⟨pre, mid, requestId, post, s, policy, rfl, hread⟩ := h
  exact ⟨pre, mid, requestId, post ++ [a], s, policy, by simp, hread⟩

/-- How call `n` has come to its phase. -/
def Phase.Story (validate : Call → Except PolicyError Unit) (s₀ : State) (n : Nat)
    (as : List Action) : Phase → Prop
  | .verifying data => Started n data as
  | .answered data upstream => Started n data as ∧
      (Accepted data.policyId upstream → ReadActive validate s₀ n data as)
  | .verified data => ReadActive validate s₀ n data as
  | _ => True

theorem Phase.Story.snoc {s₀ : State} {n : Nat} {as : List Action} {p : Phase}
    (h : p.Story validate s₀ n as) (a : Action) : p.Story validate s₀ n (as ++ [a]) := by
  cases p with
  | verifying data => exact Started.snoc h a
  | answered data upstream => exact ⟨h.1.snoc a, fun accepted => (h.2 accepted).snoc a⟩
  | verified data => exact ReadActive.snoc h a
  | _ => trivial

theorem story {s₀ s : State} (idle : ∀ n, s₀.calls n = .idle) {as : List Action}
    (h : Runs.run (step validate) s₀ as = some s) (n : Nat) :
    (s.calls n).Story validate s₀ n as := by
  revert n
  refine Runs.run_induction (P := fun as s => ∀ n, (s.calls n).Story validate s₀ n as) ?_ ?_ h
  · intro n
    rw [idle n]
    trivial
  · intro as s a t hrun hs hst n
    have put : ∀ m p, (m = n → Phase.Story validate s₀ n (as ++ [a]) p) →
        ((s.put m p).calls n).Story validate s₀ n (as ++ [a]) := by
      intro m p hp
      by_cases hm : n = m
      · subst hm
        rw [State.put_self]
        exact hp rfl
      · rw [State.put_other s hm]
        exact (hs n).snoc a
    cases step_sound hst with
    | policy h => exact (hs n).snoc _
    | @file m data at_m =>
      refine put _ _ (fun hm => ?_)
      subst hm
      exact ⟨as, [], rfl⟩
    | @serve m data requestId at_m =>
      refine put _ _ (fun hm => ?_)
      subst hm
      have started := hs m
      rw [at_m] at started
      refine ⟨Started.snoc started _, fun accepted => ?_⟩
      obtain ⟨pre, mid, rfl⟩ := started
      obtain ⟨policy, hfind, active⟩ := active_of_accepted accepted
      exact ⟨pre, mid, requestId, [], s, policy, by simp, hrun, hfind, active⟩
    | @disturb m data upstream at_m failed =>
      refine put _ _ (fun hm => ?_)
      subst hm
      have waiting := hs m
      refine ⟨?_, fun accepted => absurd accepted (not_accepted_unsuccessful failed)⟩
      cases hp : s.calls m with
      | verifying data' =>
        rw [hp] at at_m waiting
        cases at_m
        exact Started.snoc waiting _
      | answered data' upstream' =>
        rw [hp] at at_m waiting
        cases at_m
        exact waiting.1.snoc _
      | _ =>
        rw [hp] at at_m
        cases at_m
    | @verified m breaker elapsed data upstream answer at_m ok =>
      refine put _ _ (fun hm => ?_)
      subst hm
      have answered := hs m
      rw [at_m] at answered
      exact (answered.2 ⟨breaker, elapsed, answer, ok⟩).snoc _
    | committed at_m ok => exact put _ _ (fun _ => trivial)
    | failed at_m => exact put _ _ (fun _ => trivial)

/-! ## What a commit adds -/

/-- One claim in FILED, one history row from '' to FILED and one claim.filed
event. -/
def FilesOne (data : ClaimService.ClaimData) (before after : ClaimService.Store) : Prop :=
  ∃ claim row event, after.claims = before.claims ++ [claim] ∧
    after.history = before.history ++ [row] ∧ after.outbox = before.outbox ++ [event] ∧
    claim.policyId = data.policyId ∧ claim.status = .filed ∧
    row.claimId = claim.id ∧ row.fromStatus = none ∧ row.toStatus = .filed ∧
    event.aggregateId = claim.id ∧ event.eventType = "claim.filed"

/-- The step commits one call, which adds its three rows, or it commits none and
adds nothing. -/
def Effect (s : State) (_ : Action) (t : State) : Prop :=
  (∃ n data, s.calls n = .verified data ∧ t.calls n = .committed data ∧
      (∀ m, m ≠ n → t.calls m = s.calls m) ∧ FilesOne data s.claims t.claims) ∨
    t.claims = s.claims ∧ ∀ n data, t.calls n = .committed data ↔ s.calls n = .committed data

theorem filesOne {db db' : ClaimService.Store} {env : ClaimService.Env}
    {data : ClaimService.ClaimData} (h : ClaimService.fileClaim db env data = .ok db') :
    FilesOne data db db' := by
  obtain ⟨number, _, rfl⟩ := ClaimService.fileClaim_ok h
  exact ⟨_, _, _, rfl, rfl, rfl, rfl, rfl, rfl, rfl, rfl, rfl, rfl⟩

theorem effect {s t : State} {a : Action} (h : step validate s a = some t) : Effect s a t := by
  -- a step of call `m` that neither leaves nor enters the committed phase
  have other : ∀ m p, (∀ data, s.calls m ≠ .committed data) → (∀ data, p ≠ .committed data) →
      Effect s a (s.put m p) := by
    intro m p hold hnew
    refine Or.inr ⟨rfl, fun n data => ?_⟩
    by_cases hm : n = m
    · subst hm
      rw [State.put_self]
      exact iff_of_false (hnew data) (hold data)
    · rw [State.put_other s hm]
  cases step_sound h with
  | policy h => exact Or.inr ⟨rfl, fun _ _ => Iff.rfl⟩
  | file at_m => exact other _ _ (by simp [at_m]) (by simp)
  | serve at_m => exact other _ _ (by simp [at_m]) (by simp)
  | disturb at_m failed =>
    refine other _ _ (fun data hm => ?_) (by simp)
    rw [hm] at at_m
    cases at_m
  | verified at_m ok => exact other _ _ (by simp [at_m]) (by simp)
  | @committed m env data claims at_m ok =>
    exact Or.inl ⟨m, data, at_m, State.put_self s m _, fun n hn => State.put_other s hn _,
      filesOne ok⟩
  | failed at_m =>
    refine other _ _ (fun data hm => ?_) (by simp)
    rw [hm] at at_m
    cases at_m

theorem commit_verified {s t : State} {n : Nat} {env : ClaimService.Env}
    {data : ClaimService.ClaimData} (h : step validate s (.commit n env) = some t)
    (committed : t.calls n = .committed data) : s.calls n = .verified data := by
  simp only [step] at h
  split at h
  · rename_i data' at_n
    split at h
    · cases h
      have same : (s.put n (.committed data')).calls n = .committed data := committed
      rw [State.put_self] at same
      cases same
      exact at_n
    · cases h
      rw [State.put_self] at committed
      cases committed
  · cases h

/-- A committed filing was served while its policy was active, none that starts
after the policy's cancellation commits, and commits alone add claims, history
and events. -/
theorem claims_filed_on_active_policies (validate : Call → Except PolicyError Unit)
    (policies : PolicyService.Store) (claims : ClaimService.Store) :
    (∀ as n env t data, Runs.run (step validate) (start policies claims) (as ++ [.commit n env]) =
        some t → t.calls n = .committed data →
      ReadActive validate (start policies claims) n data as) ∧
    (∀ as s policyId policy n bs t data,
      Runs.run (step validate) (start policies claims) as = some s →
      Tables.find Policy.id s.policy.db.policies policyId = some policy →
      policy.status = .cancelled → s.calls n = .idle → Runs.run (step validate) s bs = some t →
      t.calls n = .committed data → data.policyId ≠ policyId) ∧
    ∀ as, Runs.Steps (step validate) Effect (start policies claims) as := by
  refine ⟨?_, ?_, ?_⟩
  · intro as n env t data hrun hcommitted
    obtain ⟨s, hs, hst⟩ := Runs.run_snoc.mp hrun
    have told := story (fun _ => rfl) hs n
    rw [commit_verified hst hcommitted] at told
    exact told
  · intro as s policyId policy n bs t data hs hfind hcancelled idle hbs hcommitted
    have sound := sound_step.run (sound_start policies claims) hs
    have cancelled : Cancelled s policyId :=
      ⟨_, PolicyRecords.recordOf_found hfind, Or.inl hcancelled⟩
    have blocked : (s.calls n).Blocked policyId := by
      rw [idle]
      trivial
    have kept := (sound_step.and (J := fun s => Cancelled s policyId ∧ (s.calls n).Blocked policyId)
      (fun s a t hs hJ hst => ⟨cancelled_step hs hJ.1 hst, blocked_step hJ.1 hJ.2 hst⟩)).run
        ⟨sound, cancelled, blocked⟩ hbs
    have hblocked := kept.2.2
    rw [hcommitted] at hblocked
    exact hblocked
  · exact fun as => Runs.steps_of_step (fun _ _ _ => effect)

/-! ## A filing answered before a cancellation -/

open PolicyRecords in
def exampleStart : State :=
  start ⟨[exampleCustomer], [newPolicy (exampleEnv 0) exampleCustomer "POL-2025-000001"
    PolicyRecords.exampleData], [], []⟩ ⟨[], [], []⟩

def exampleData : ClaimService.ClaimData := { ClaimRecords.exampleData with policyId := ⟨0⟩ }

/-- One filing commits, a second one is answered, and then the policy is cancelled. -/
def exampleRun : List Action :=
  [.file 0 exampleData, .serve 0 "", .verify 0 CircuitBreaker.init false,
    .commit 0 (ClaimRecords.exampleEnv 100), .file 1 exampleData, .serve 1 "",
    .verify 1 CircuitBreaker.init false] ++
    (PolicyRecords.exampleRead 0 (PolicyRecords.exampleCancel "Impago") ++
      PolicyRecords.exampleCommit 0).map .policy

/-- The second filing still commits, on what it read; no call that starts now does. -/
theorem exampleRun_files : ∃ s, Runs.run (step serializers) exampleStart
      (exampleRun ++ [.commit 1 (ClaimRecords.exampleEnv 200)]) = some s ∧
    s.claims.claims.length = 2 ∧ ReadActive serializers exampleStart 1 exampleData exampleRun ∧
    ∀ bs t data, Runs.run (step serializers) s bs = some t → t.calls 2 = .committed data →
      data.policyId ≠ ⟨0⟩ := by
  obtain ⟨s, hs, filed, committed, idle, policy, hfind, hcancelled⟩ : ∃ s,
      Runs.run (step serializers) exampleStart
        (exampleRun ++ [.commit 1 (ClaimRecords.exampleEnv 200)]) = some s ∧
      s.claims.claims.length = 2 ∧ s.calls 1 = .committed exampleData ∧ s.calls 2 = .idle ∧
      ∃ policy, Tables.find Policy.id s.policy.db.policies ⟨0⟩ = some policy ∧
        policy.status = .cancelled := ⟨_, rfl, rfl, rfl, rfl, _, rfl, rfl⟩
  obtain ⟨reads, blocks, -⟩ := claims_filed_on_active_policies serializers
    exampleStart.policy.db exampleStart.claims
  exact ⟨s, hs, filed, reads exampleRun 1 _ s exampleData hs committed, fun bs t data =>
    blocks _ s ⟨0⟩ policy 2 bs t data hs hfind hcancelled idle⟩

end FilingVerification
