import RiskCore.Runs

/-!
# Circuit breakers

A breaker stands in front of a function that may raise. It counts the failures
since the last success and opens at a maximum; while it is open calls are refused,
until a timeout has elapsed and one is let through to find out. Which exceptions
are failures is a parameter; the others count as successes.

The counter is the length of the streak of failures at the end of the outcomes
let through, so the breaker opens where the streak reaches the maximum.
-/

namespace CircuitBreaker

universe u v
variable {E : Type u} {α : Type v}

inductive Status where
  | closed
  | opened
  | halfOpen
deriving DecidableEq

structure Breaker where
  status : Status
  failCounter : Nat
deriving DecidableEq

/-- `circuitBreakerError` is raised to a refused call, and in place of its own
exception to the call that opens the breaker. -/
inductive Result (E : Type u) (α : Type v) where
  | returned (a : α)
  | raised (e : E)
  | circuitBreakerError

def init : Breaker := ⟨.closed, 0⟩

/-- Whether the function is run; `elapsed` says that the timeout is over. -/
def Breaker.lets (b : Breaker) (elapsed : Bool) : Bool :=
  match b.status with
  | .opened => elapsed
  | _ => true

/-- Whether one more failure opens the breaker; a trial call opens it at once. -/
def Breaker.trips (failMax : Nat) (b : Breaker) : Bool :=
  b.status ≠ .closed || failMax ≤ b.failCounter + 1

/-- `breaker.call(function)`, where the function ends in `outcome`. -/
def call (failMax : Nat) (excluded : E → Bool) (b : Breaker) (elapsed : Bool)
    (outcome : Except E α) : Breaker × Result E α :=
  if b.lets elapsed then
    match outcome with
    | .ok a => (⟨.closed, 0⟩, .returned a)
    | .error e =>
      if excluded e then (⟨.closed, 0⟩, .raised e)
      else if b.trips failMax then (⟨.opened, b.failCounter + 1⟩, .circuitBreakerError)
      else (⟨.closed, b.failCounter + 1⟩, .raised e)
  else (b, .circuitBreakerError)

def isFailure (excluded : E → Bool) : Except E α → Bool
  | .ok _ => false
  | .error e => !excluded e

theorem call_refused {b : Breaker} {elapsed : Bool} (h : b.lets elapsed = false) (failMax : Nat)
    (excluded : E → Bool) (outcome : Except E α) :
    call failMax excluded b elapsed outcome = (b, .circuitBreakerError) := by
  simp [call, h]

/-- Where a call that is let through leaves the breaker. -/
theorem call_breaker {b : Breaker} {elapsed : Bool} (h : b.lets elapsed = true) (failMax : Nat)
    (excluded : E → Bool) (outcome : Except E α) :
    (call failMax excluded b elapsed outcome).1 =
      if isFailure excluded outcome then
        ⟨if b.trips failMax then .opened else .closed, b.failCounter + 1⟩
      else ⟨.closed, 0⟩ := by
  simp only [call, h, if_true]
  cases outcome with
  | ok a => rfl
  | error e =>
    by_cases he : excluded e = true
    · simp [isFailure, he]
    · by_cases ht : b.trips failMax = true
      · simp [isFailure, he, ht]
      · simp [isFailure, he, ht]

/-- What the caller of a call that is let through gets. -/
theorem call_result {b : Breaker} {elapsed : Bool} (h : b.lets elapsed = true) (failMax : Nat)
    (excluded : E → Bool) (outcome : Except E α) :
    (call failMax excluded b elapsed outcome).2 = match outcome with
      | .ok a => .returned a
      | .error e =>
        if excluded e = false ∧ b.trips failMax = true then .circuitBreakerError
        else .raised e := by
  simp only [call, h, if_true]
  cases outcome with
  | ok a => rfl
  | error e =>
    by_cases he : excluded e = true
    · simp [he]
    · by_cases ht : b.trips failMax = true
      · simp [he, ht]
      · simp [he, ht]

/-- A call that returns has run its function. -/
theorem call_returned {failMax : Nat} {excluded : E → Bool} {b : Breaker} {elapsed : Bool}
    {outcome : Except E α} {a : α}
    (h : (call failMax excluded b elapsed outcome).2 = .returned a) : outcome = .ok a := by
  cases lets : b.lets elapsed with
  | false =>
    rw [call_refused lets] at h
    cases h
  | true =>
    rw [call_result lets] at h
    cases outcome with
    | ok a' =>
      cases h
      rfl
    | error e =>
      simp only at h
      split at h <;> cases h

/-! ## Streaks -/

/-- How many of the last elements in a row have `p`. -/
def streak (p : α → Bool) (xs : List α) : Nat := (xs.reverse.takeWhile p).length

theorem streak_snoc (p : α → Bool) (xs : List α) (x : α) :
    streak p (xs ++ [x]) = if p x then streak p xs + 1 else 0 := by
  by_cases hx : p x <;> simp [streak, hx]

theorem streak_mono {p q : α → Bool} (h : ∀ x, p x = true → q x = true) (xs : List α) :
    streak p xs ≤ streak q xs := by
  induction xs using List.reverseRecOn with
  | nil => exact Nat.le_refl 0
  | append_singleton xs x ih =>
    rw [streak_snoc, streak_snoc]
    by_cases hx : p x = true
    · rw [if_pos hx, if_pos (h x hx)]
      exact Nat.succ_le_succ ih
    · rw [if_neg hx]
      exact Nat.zero_le _

/-! ## The counter over a run -/

section
variable {I : Type u} (failMax : Nat) (excluded : E → Bool) (run : I → Except E α)

/-- The breaker, and the history of what the calls let through met. -/
structure State (I : Type u) where
  breaker : Breaker
  met : List I

/-- A call made with the timeout over or not, and what its function would meet. -/
structure Action (I : Type u) where
  elapsed : Bool
  input : I

def step (s : State I) (a : Action I) : Option (State I) :=
  some ⟨(call failMax excluded s.breaker a.elapsed (run a.input)).1,
    if s.breaker.lets a.elapsed then s.met ++ [a.input] else s.met⟩

/-- Whether what was met is a failure. -/
def fails (i : I) : Bool := isFailure excluded (run i)

structure Counted (s : State I) : Prop where
  counter : s.breaker.failCounter = streak (fails excluded run) s.met
  closed : s.breaker.status = .closed → s.breaker.failCounter < failMax
  other : s.breaker.status ≠ .closed → failMax ≤ s.breaker.failCounter

/-- The call of this step is let through, and the breaker is open after it. -/
def Opens (s : State I) (a : Action I) (t : State I) : Prop :=
  s.breaker.lets a.elapsed = true ∧ t.breaker.status = .opened

variable {failMax excluded run}

theorem counted_init (pos : 0 < failMax) : Counted failMax excluded run ⟨init, []⟩ where
  counter := rfl
  closed := fun _ => pos
  other := fun h => absurd rfl h

/-- What one step can do: the call is refused, or what it meets is added. -/
theorem step_cases {s t : State I} {a : Action I} (h : step failMax excluded run s a = some t) :
    s.breaker.lets a.elapsed = false ∧ t = s ∨
    s.breaker.lets a.elapsed = true ∧ t.met = s.met ++ [a.input] ∧
      t.breaker = if fails excluded run a.input then
        ⟨if s.breaker.trips failMax then .opened else .closed, s.breaker.failCounter + 1⟩
      else ⟨.closed, 0⟩ := by
  cases h
  cases lets : s.breaker.lets a.elapsed with
  | false =>
    refine Or.inl ⟨rfl, ?_⟩
    rw [call_refused lets]
    rfl
  | true => exact Or.inr ⟨rfl, rfl, call_breaker lets failMax excluded (run a.input)⟩

theorem Counted.trips_iff {s : State I} (hs : Counted failMax excluded run s) :
    s.breaker.trips failMax = true ↔ failMax ≤ s.breaker.failCounter + 1 := by
  simp only [Breaker.trips, Bool.or_eq_true, decide_eq_true_eq]
  constructor
  · rintro (other | full)
    · exact Nat.le_succ_of_le (hs.other other)
    · exact full
  · exact Or.inr

theorem counted_step (pos : 0 < failMax) :
    Runs.Inductive (step failMax excluded run) (Counted failMax excluded run) := by
  intro s a t hs h
  rcases step_cases h with ⟨_, rfl⟩ | ⟨_, hmet, hbreaker⟩
  · exact hs
  · have hcounter := hs.counter
    by_cases hfails : fails excluded run a.input = true
    · rw [if_pos hfails] at hbreaker
      refine ⟨?_, ?_, ?_⟩
      · rw [hbreaker, hmet, streak_snoc, if_pos hfails]
        exact congrArg (· + 1) hcounter
      · intro closed
        rw [hbreaker] at closed ⊢
        by_cases trips : s.breaker.trips failMax = true
        · simp [trips] at closed
        · exact Nat.not_le.mp (fun full => trips (hs.trips_iff.mpr full))
      · intro other
        rw [hbreaker] at other ⊢
        by_cases trips : s.breaker.trips failMax = true
        · exact hs.trips_iff.mp trips
        · simp [trips] at other
    · rw [if_neg hfails] at hbreaker
      refine ⟨?_, ?_, ?_⟩
      · rw [hbreaker, hmet, streak_snoc, if_neg hfails]
      · intro _
        rw [hbreaker]
        exact pos
      · intro other
        rw [hbreaker] at other
        exact absurd rfl other

/-- The breaker opens where the streak of failures has reached the maximum. -/
theorem opens_iff (pos : 0 < failMax) {s t : State I} {a : Action I}
    (hs : Counted failMax excluded run s) (h : step failMax excluded run s a = some t) :
    Opens s a t ↔ s.breaker.lets a.elapsed = true ∧
      failMax ≤ streak (fails excluded run) t.met := by
  have ht := counted_step pos s a t hs h
  rw [← ht.counter]
  refine and_congr_right (fun lets => ?_)
  constructor
  · intro opened
    refine ht.other ?_
    rw [opened]
    simp
  · intro full
    rcases step_cases h with ⟨refused, _⟩ | ⟨_, _, hbreaker⟩
    · rw [refused] at lets
      cases lets
    · by_cases hfails : fails excluded run a.input = true
      · rw [if_pos hfails] at hbreaker
        rw [hbreaker] at full ⊢
        simp [hs.trips_iff.mpr full]
      · rw [if_neg hfails] at hbreaker
        rw [hbreaker] at full
        exact absurd full (Nat.not_le.mpr pos)

end

end CircuitBreaker
