import RiskCore.CircuitBreaker
import RiskCore.Payloads

/-!
# The client of policy-service

`PolicyServiceClient` of claims-service: the raw call to `/verify/` and the
translation of what leaves the circuit breaker. The body of a response is decoded
inside the function the breaker wraps, outside of what translates exceptions.
-/

namespace PolicyClient

open Values Payloads

/-- What `client.get` ends in: an `httpx.RequestError` (a timeout, no connection, a
protocol error), or a response, with what `json()` returns or `none` where it
raises. -/
inductive Upstream where
  | requestError
  | response (status : Nat) (body : Option Json)

/-- What leaves `_http_verify`. -/
inductive HttpError where
  | clientBusinessError (statusCode : Nat) (data : Json)
  | requestError
  | httpStatusError (statusCode : Nat)
  | jsonDecodeError

def isSuccess (status : Nat) : Bool := 200 ≤ status && status < 300

def isClientError (status : Nat) : Bool := 400 ≤ status && status < 500

/-- `response.json()`. -/
def decoded (body : Option Json) : Except HttpError Json :=
  match body with
  | some data => .ok data
  | none => .error .jsonDecodeError

def httpVerify : Upstream → Except HttpError Json
  | .requestError => .error .requestError
  | .response status body =>
    if isSuccess status then decoded body
    else if isClientError status then do
      let data ← decoded body
      .error (.clientBusinessError status data)
    else .error (.httpStatusError status)

/-- `exclude=[_ClientBusinessError]`. -/
def excluded : HttpError → Bool
  | .clientBusinessError _ _ => true
  | _ => false

/-- `fail_max`. -/
def failMax : Nat := 5

/-- What leaves `verify_policy`; a status code is null or any JSON value. -/
inductive VerifyError where
  | policyInactive (policyId : UUID) (policyStatus : Json)
  | policyServiceUnavailable (policyId : UUID)
  | jsonDecodeError
  | attributeError

/-- The part of `verify_policy` after the breaker. -/
def translate (policyId : UUID) :
    CircuitBreaker.Result HttpError Json → Except VerifyError Json
  | .circuitBreakerError => .error (.policyServiceUnavailable policyId)
  | .raised (.clientBusinessError statusCode _) =>
    if statusCode = 404 then .error (.policyInactive policyId (.str "NOT_FOUND"))
    else .error (.policyServiceUnavailable policyId)
  | .raised .requestError => .error (.policyServiceUnavailable policyId)
  | .raised (.httpStatusError _) => .error (.policyServiceUnavailable policyId)
  | .raised .jsonDecodeError => .error .jsonDecodeError
  | .returned data =>
    match get data "is_valid" .null with
    | some isValid =>
      if truthy isValid then .ok data
      else .error (.policyInactive policyId ((get data "status" .null).getD .null))
    | none => .error .attributeError

/-- `verify_policy`, and the breaker after it. -/
def verifyPolicy (breaker : CircuitBreaker.Breaker) (elapsed : Bool) (policyId : UUID)
    (upstream : Upstream) : CircuitBreaker.Breaker × Except VerifyError Json :=
  let (after, result) := CircuitBreaker.call failMax excluded breaker elapsed (httpVerify upstream)
  (after, translate policyId result)

/-! ## The documented outcomes -/

/-- A JSON object that says the policy is valid, or one of the two documented
errors. -/
def Documented : Except VerifyError Json → Prop
  | .ok data => ∃ fields, data = .obj fields ∧
      truthy ((fields.lookup "is_valid").getD .null) = true
  | .error (.policyInactive _ _) => True
  | .error (.policyServiceUnavailable _) => True
  | .error _ => False

/-- `PolicyInactiveError`. -/
def Inactive : Except VerifyError Json → Prop
  | .error (.policyInactive _ _) => True
  | _ => False

/-- A 404, or a 2xx object whose `is_valid` is absent or falsy. -/
def SaysInactive : Upstream → Prop
  | .response status (some (.obj fields)) =>
    status = 404 ∨ isSuccess status = true ∧ truthy ((fields.lookup "is_valid").getD .null) = false
  | .response status _ => status = 404
  | .requestError => False

/-- The body is what the client takes it for: a JSON object with a 2xx status, JSON
with a 4xx one. Where the body is not JSON, the exception is not seen if it is the
failure that opens the breaker. -/
def Readable (breaker : CircuitBreaker.Breaker) : Upstream → Prop
  | .requestError => True
  | .response _ (some (.obj _)) => True
  | .response status (some _) => isSuccess status = false
  | .response status none =>
    isSuccess status = false ∧ isClientError status = false ∨
      breaker.trips failMax = true ∧ status ≠ 404

/-! ## What the client makes of an answer -/

section
variable {breaker : CircuitBreaker.Breaker} {elapsed : Bool} {upstream : Upstream}

theorem verifyPolicy_refused (lets : breaker.lets elapsed = false) (policyId : UUID)
    (upstream : Upstream) : verifyPolicy breaker elapsed policyId upstream =
      (breaker, .error (.policyServiceUnavailable policyId)) := by
  rw [verifyPolicy, CircuitBreaker.call_refused lets]
  rfl

theorem verifyPolicy_returned (lets : breaker.lets elapsed = true) {data : Json}
    (h : httpVerify upstream = .ok data) (policyId : UUID) :
    (verifyPolicy breaker elapsed policyId upstream).2 = translate policyId (.returned data) := by
  change translate policyId (CircuitBreaker.call _ _ _ _ _).2 = _
  rw [CircuitBreaker.call_result lets, h]

/-- A business error passes the breaker by. -/
theorem verifyPolicy_business (lets : breaker.lets elapsed = true) {statusCode : Nat} {data : Json}
    (h : httpVerify upstream = .error (.clientBusinessError statusCode data)) (policyId : UUID) :
    (verifyPolicy breaker elapsed policyId upstream).2 =
      translate policyId (.raised (.clientBusinessError statusCode data)) := by
  change translate policyId (CircuitBreaker.call _ _ _ _ _).2 = _
  rw [CircuitBreaker.call_result lets, h]
  rfl

/-- Any other error gives way to the breaker's own when it opens the breaker. -/
theorem verifyPolicy_failed (lets : breaker.lets elapsed = true) {e : HttpError}
    (h : httpVerify upstream = .error e) (counts : excluded e = false) (policyId : UUID) :
    (verifyPolicy breaker elapsed policyId upstream).2 =
      if breaker.trips failMax = true then .error (.policyServiceUnavailable policyId)
      else translate policyId (.raised e) := by
  change translate policyId (CircuitBreaker.call _ _ _ _ _).2 = _
  rw [CircuitBreaker.call_result lets, h]
  by_cases trips : breaker.trips failMax = true
  · simp [counts, trips, translate]
  · simp [trips]

end

theorem translate_ok {policyId : UUID} {result : CircuitBreaker.Result HttpError Json} {data : Json}
    (h : translate policyId result = .ok data) :
    result = .returned data ∧
      ∃ isValid, get data "is_valid" .null = some isValid ∧ truthy isValid = true := by
  cases result with
  | circuitBreakerError => cases h
  | raised e =>
    cases e with
    | clientBusinessError statusCode _ =>
      simp only [translate] at h
      split at h <;> cases h
    | _ => cases h
  | returned data' =>
    simp only [translate] at h
    split at h
    · rename_i isValid hget
      split at h
      · rename_i valid
        cases h
        exact ⟨rfl, isValid, hget, valid⟩
      · cases h
    · cases h

theorem httpVerify_ok {upstream : Upstream} {data : Json} (h : httpVerify upstream = .ok data) :
    ∃ status, upstream = .response status (some data) ∧ isSuccess status = true := by
  cases upstream with
  | requestError => cases h
  | response status body =>
    simp only [httpVerify] at h
    split at h
    · rename_i success
      cases body with
      | none => cases h
      | some data' =>
        cases h
        exact ⟨status, rfl, success⟩
    · split at h
      · cases body <;> cases h
      · cases h

/-- A call that returns was answered with success and a truthy `is_valid`. -/
theorem verifyPolicy_ok {breaker : CircuitBreaker.Breaker} {elapsed : Bool} {policyId : UUID}
    {upstream : Upstream} {data : Json}
    (h : (verifyPolicy breaker elapsed policyId upstream).2 = .ok data) :
    ∃ status isValid, upstream = .response status (some data) ∧ isSuccess status = true ∧
      get data "is_valid" .null = some isValid ∧ truthy isValid = true := by
  obtain ⟨hreturned, isValid, hget, valid⟩ := translate_ok h
  obtain ⟨status, hupstream, success⟩ := httpVerify_ok (CircuitBreaker.call_returned hreturned)
  exact ⟨status, isValid, hupstream, success, hget, valid⟩

/-! ## The raw call, answer by answer -/

section
variable {status : Nat}

theorem httpVerify_success (h : isSuccess status = true) (body : Option Json) :
    httpVerify (.response status body) = decoded body := by
  simp only [httpVerify, h, if_true]

theorem success_not_clientError (h : isClientError status = true) : isSuccess status = false := by
  simp only [isClientError, isSuccess, Bool.and_eq_true, decide_eq_true_eq, Bool.and_eq_false_iff,
    decide_eq_false_iff_not] at *
  omega

theorem httpVerify_clientError (h : isClientError status = true) (body : Option Json) :
    httpVerify (.response status body) = match body with
      | some data => .error (.clientBusinessError status data)
      | none => .error .jsonDecodeError := by
  simp only [httpVerify, success_not_clientError h, h]
  cases body <;> rfl

theorem httpVerify_other (success : isSuccess status = false)
    (client : isClientError status = false) (body : Option Json) :
    httpVerify (.response status body) = .error (.httpStatusError status) := by
  simp [httpVerify, success, client]

end

/-! ## When the outcomes are the documented ones -/

/-- The outcome is documented, and an error about the policy when the upstream
says so. -/
def Meets (upstream : Upstream) (result : Except VerifyError Json) : Prop :=
  Documented result ∧ (Inactive result ↔ SaysInactive upstream)

theorem meets_unavailable {upstream : Upstream} (policyId : UUID) :
    Meets upstream (.error (.policyServiceUnavailable policyId)) ↔ ¬ SaysInactive upstream := by
  simp [Meets, Documented, Inactive]

theorem meets_inactive {upstream : Upstream} (policyId : UUID) (policyStatus : Json) :
    Meets upstream (.error (.policyInactive policyId policyStatus)) ↔ SaysInactive upstream := by
  simp [Meets, Documented, Inactive]

theorem not_meets_jsonDecodeError {upstream : Upstream} :
    ¬ Meets upstream (.error .jsonDecodeError) := by
  simp [Meets, Documented]

theorem not_meets_attributeError {upstream : Upstream} :
    ¬ Meets upstream (.error .attributeError) := by
  simp [Meets, Documented]

/-- What an undecodable body makes of a call. -/
theorem meets_undecodable {breaker : CircuitBreaker.Breaker} {elapsed : Bool}
    (lets : breaker.lets elapsed = true) {status : Nat}
    (h : httpVerify (.response status none) = .error .jsonDecodeError) (policyId : UUID) :
    Meets (.response status none)
        (verifyPolicy breaker elapsed policyId (.response status none)).2 ↔
      breaker.trips failMax = true ∧ status ≠ 404 := by
  rw [verifyPolicy_failed lets h rfl]
  by_cases trips : breaker.trips failMax = true
  · rw [if_pos trips, meets_unavailable]
    simp [SaysInactive, trips]
  · rw [if_neg trips]
    exact iff_of_false not_meets_jsonDecodeError (fun readable => trips readable.1)

theorem meets_failed {breaker : CircuitBreaker.Breaker} {elapsed : Bool}
    (lets : breaker.lets elapsed = true) {upstream : Upstream} {e : HttpError}
    (h : httpVerify upstream = .error e) (counts : excluded e = false) (policyId : UUID)
    (translated : translate policyId (.raised e) = .error (.policyServiceUnavailable policyId))
    (silent : ¬ SaysInactive upstream) :
    Meets upstream (verifyPolicy breaker elapsed policyId upstream).2 := by
  rw [verifyPolicy_failed lets h counts, translated, ite_self, meets_unavailable]
  exact silent

/-- Among the answers with a 2xx status, those that are JSON objects are read. -/
theorem meets_success {breaker : CircuitBreaker.Breaker} {elapsed : Bool}
    (lets : breaker.lets elapsed = true) {status : Nat} (success : isSuccess status = true)
    (data : Json) (policyId : UUID) :
    Meets (.response status (some data))
      (verifyPolicy breaker elapsed policyId (.response status (some data))).2 ↔
        ∃ fields, data = .obj fields := by
  have found : status ≠ 404 := by
    rintro rfl
    cases success
  rw [verifyPolicy_returned lets (httpVerify_success success (some data))]
  have raised : ∀ data : Json, (∀ fields, data ≠ .obj fields) →
      translate policyId (.returned data) = .error .attributeError := by
    intro data other
    cases data with
    | obj fields => exact absurd rfl (other fields)
    | _ => rfl
  by_cases object : ∃ fields, data = .obj fields
  · obtain ⟨fields, rfl⟩ := object
    refine iff_of_true ?_ ⟨fields, rfl⟩
    have hget : get (.obj fields) "is_valid" .null =
        some ((fields.lookup "is_valid").getD .null) := rfl
    by_cases valid : truthy ((fields.lookup "is_valid").getD .null) = true
    · simp [translate, hget, valid, Meets, Documented, Inactive, SaysInactive, found]
    · simp [translate, hget, valid, Meets, Documented, Inactive, SaysInactive, success]
  · rw [raised data (fun fields hdata => object ⟨fields, hdata⟩)]
    exact iff_of_false not_meets_attributeError object

theorem meets_clientError {breaker : CircuitBreaker.Breaker} {elapsed : Bool}
    (lets : breaker.lets elapsed = true) {status : Nat} (client : isClientError status = true)
    (data : Json) (policyId : UUID) :
    Meets (.response status (some data))
      (verifyPolicy breaker elapsed policyId (.response status (some data))).2 := by
  have success := success_not_clientError client
  have inactive : SaysInactive (.response status (some data)) ↔ status = 404 := by
    cases data <;> simp [SaysInactive, success]
  rw [verifyPolicy_business lets (httpVerify_clientError client (some data))]
  by_cases missing : status = 404
  · simp only [translate, if_pos missing, meets_inactive, inactive]
    exact missing
  · simp only [translate, if_neg missing, meets_unavailable, inactive]
    exact missing

/-- A call to `verify_policy` meets its documentation exactly when the breaker
refuses it or the body of the response can be read. -/
theorem documented_iff_readable (breaker : CircuitBreaker.Breaker) (elapsed : Bool)
    (policyId : UUID) (upstream : Upstream) :
    (Documented (verifyPolicy breaker elapsed policyId upstream).2 ∧
      (breaker.lets elapsed = true →
        (Inactive (verifyPolicy breaker elapsed policyId upstream).2 ↔ SaysInactive upstream))) ↔
      (breaker.lets elapsed = true → Readable breaker upstream) := by
  cases lets : breaker.lets elapsed with
  | false =>
    rw [verifyPolicy_refused lets]
    simp [Documented]
  | true =>
    simp only [true_implies]
    change Meets upstream (verifyPolicy breaker elapsed policyId upstream).2 ↔ _
    cases upstream with
    | requestError =>
      refine iff_of_true ?_ trivial
      exact meets_failed lets rfl rfl policyId rfl id
    | response status body =>
      cases success : isSuccess status with
      | true =>
        cases body with
        | none =>
          rw [meets_undecodable lets (httpVerify_success success none)]
          simp [Readable, success]
        | some data =>
          rw [meets_success lets success]
          cases data <;> simp [Readable, success]
      | false =>
        cases client : isClientError status with
        | true =>
          cases body with
          | none =>
            rw [meets_undecodable lets (httpVerify_clientError client none)]
            simp [Readable, success, client]
          | some data =>
            refine iff_of_true (meets_clientError lets client data policyId) ?_
            cases data <;> simp [Readable, success]
        | false =>
          have found : status ≠ 404 := by
            rintro rfl
            cases client
          refine iff_of_true ?_ ?_
          · refine meets_failed lets (httpVerify_other success client body) rfl policyId rfl ?_
            cases body with
            | none => exact found
            | some data => cases data <;> simp [SaysInactive, found, success]
          · cases body with
            | none => exact Or.inl ⟨success, client⟩
            | some data => cases data <;> simp [Readable, success]

/-- A 404 with a page in place of JSON leaves `verify_policy` as a
`JSONDecodeError`. -/
theorem notFoundPage_undocumented :
    ¬ (Documented (verifyPolicy CircuitBreaker.init false ⟨0⟩ (.response 404 none)).2 ∧
      (CircuitBreaker.init.lets false = true →
        (Inactive (verifyPolicy CircuitBreaker.init false ⟨0⟩ (.response 404 none)).2 ↔
          SaysInactive (.response 404 none)))) :=
  fun h => h.1

end PolicyClient
