import RiskCore.PolicyClient

/-!
# What trips the breaker of the policy client

Runs of `verify_policy` calls from a closed breaker. A body that cannot be decoded
leaves `_http_verify` as an exception the breaker does not exclude, whatever the
status of the response.
-/

namespace BreakerTrips

open PolicyClient CircuitBreaker

abbrev State := CircuitBreaker.State Upstream
abbrev Action := CircuitBreaker.Action Upstream

def step : State → Action → Option State := CircuitBreaker.step failMax excluded httpVerify

/-- A closed breaker that has met nothing. -/
def init : State := ⟨CircuitBreaker.init, []⟩

/-- A timeout, a connection error, or a response outside 2xx and 4xx. -/
def infrastructure : Upstream → Bool
  | .requestError => true
  | .response status _ => !isSuccess status && !isClientError status

def clientError : Upstream → Bool
  | .requestError => false
  | .response status _ => isClientError status

/-- A 2xx or a 4xx response whose body is not JSON. -/
def undecodable : Upstream → Bool
  | .requestError => false
  | .response status body => body.isNone && (isSuccess status || isClientError status)

/-- The breaker counts both. -/
theorem fails_eq (u : Upstream) :
    fails excluded httpVerify u = (infrastructure u || undecodable u) := by
  cases u with
  | requestError => rfl
  | response status body =>
    cases success : isSuccess status with
    | true =>
      rw [fails, httpVerify_success success]
      cases body <;> simp [decoded, isFailure, excluded, infrastructure, undecodable, success]
    | false =>
      cases client : isClientError status with
      | true =>
        rw [fails, httpVerify_clientError client]
        cases body <;> simp [isFailure, excluded, infrastructure, undecodable, success, client]
      | false =>
        rw [fails, httpVerify_other success client]
        simp [isFailure, excluded, infrastructure, undecodable, success, client]

/-- A 4xx response leaves the counter at zero, and the breaker opens exactly when
the last five outcomes are failures of the infrastructure. -/
def Classified (s : State) (a : Action) (t : State) : Prop :=
  (s.breaker.lets a.elapsed = true → clientError a.input = true → t.breaker.failCounter = 0) ∧
    (Opens s a t ↔ s.breaker.lets a.elapsed = true ∧ 5 ≤ streak infrastructure t.met)

/-- No 4xx response with a body that is not JSON is met, and where the last five
outcomes are failures of the infrastructure or undecodable, they are all failures
of the infrastructure. -/
def Decodable (s : State) (a : Action) (_ : State) : Prop :=
  s.breaker.lets a.elapsed = true →
    ¬ (clientError a.input = true ∧ undecodable a.input = true) ∧
      (5 ≤ streak (fun u => infrastructure u || undecodable u) (s.met ++ [a.input]) →
        5 ≤ streak infrastructure (s.met ++ [a.input]))

theorem not_infrastructure {u : Upstream} (h : clientError u = true) :
    infrastructure u = false := by
  cases u with
  | requestError => cases h
  | response status body =>
    have client : isClientError status = true := h
    simp [infrastructure, client]

theorem classified_iff_decodable {s t : State} {a : Action}
    (hs : Counted failMax excluded httpVerify s) (h : step s a = some t) :
    Classified s a t ↔ Decodable s a t := by
  have opens := opens_iff (by decide) hs h
  have counts : fails excluded httpVerify = fun u => infrastructure u || undecodable u :=
    funext fails_eq
  rw [counts] at opens
  rcases step_cases h with ⟨refused, rfl⟩ | ⟨lets, hmet, hbreaker⟩
  · simp [Classified, Decodable, Opens, refused]
  · have fewer := streak_mono (p := infrastructure)
      (q := fun u => infrastructure u || undecodable u)
      (fun u hu => by simp [hu]) t.met
    have client : (clientError a.input = true → t.breaker.failCounter = 0) ↔
        ¬ (clientError a.input = true ∧ undecodable a.input = true) := by
      rw [hbreaker, fails_eq]
      constructor
      · rintro zero ⟨hclient, hbody⟩
        have hzero := zero hclient
        simp [hbody] at hzero
      · intro read hclient
        have hbody : undecodable a.input = false := by
          simpa using fun hu => read ⟨hclient, hu⟩
        simp [not_infrastructure hclient, hbody]
    have opened : (Opens s a t ↔ 5 ≤ streak infrastructure t.met) ↔
        (5 ≤ streak (fun u => infrastructure u || undecodable u) t.met →
          5 ≤ streak infrastructure t.met) := by
      rw [opens, and_iff_right lets]
      exact ⟨fun same => same.mp, fun most => ⟨most, fun few => Nat.le_trans few fewer⟩⟩
    rw [hmet] at opened
    simp only [Classified, Decodable, lets, true_implies, true_and, client, hmet, opened]

/-- Along a run of calls only failures of the infrastructure trip the breaker iff
no 4xx body fails to decode and no other such body makes up a streak of five. -/
theorem classified_iff_bodies_decoded (as : List Action) :
    Runs.Steps step Classified init as ↔ Runs.Steps step Decodable init as :=
  Runs.steps_congr (counted_step (by decide))
    (fun _ _ _ hs h => classified_iff_decodable hs h) (counted_init (by decide))

/-- One 404 with a page in place of JSON. -/
def notFoundPage : List Action := [⟨false, .response 404 none⟩]

theorem notFoundPage_counted : ¬ Runs.Steps step Classified init notFoundPage := by
  intro h
  have zero := (h _ rfl).1.1 rfl rfl
  cases zero

end BreakerTrips
