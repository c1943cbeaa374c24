import RiskCore.ClaimRecords

/-!
# What a claim pays

The approved amount, the decision in the history, the `claim.resolved` event and
the request that approved the claim, held against each other. They agree in
every state of a run in which no transition overwrites a decision it did not
read.
-/

namespace ClaimPayouts

open Values Outbox ClaimService ClaimRecords

/-- The claim has once been given this status. -/
def reached (r : Record) (status : Claim.Status) : Prop :=
  ∃ h ∈ r.history, h.toStatus = status

/-- A transition to APPROVED gives its claim the amount of the request. -/
def approval : Call → Option (UUID × Option Amount)
  | .transition req => if req.newStatus = .approved then some (req.pk, req.approvedAmount) else none
  | .file _ => none

/-- Call `n` is a committed request that approved the claim with this amount. -/
abbrev Approves (s : State) (id : UUID) (n : Nat) (amount : Option Amount) : Prop :=
  Requests.DoneBy approval s id n amount

/-- What the claim row, its history, its outbox rows and the committed requests
must say about one another. -/
structure PaidAsDecided (s : State) (id : UUID) (r : Record) : Prop where
  approved : ∀ a, r.claim.approvedAmount = some a →
    r.claim.status = .approved ∨
      r.claim.status = .resolved ∧ (changes r).getLast? = some (some .approved, .resolved)
  supplied : ∀ a, r.claim.approvedAmount = some a →
    ∃ n, Approves s id n (some a) ∧ ∀ m b, Approves s id m b → m = n
  rejected : reached r .rejected → r.claim.approvedAmount = none
  once : (resolvedOf r).length ≤ 1
  reported : ∀ e ∈ resolvedOf r, e.data? "approved_amount" ≠ none ↔ reached r .approved

def PayoutsConsistent (s : State) : Prop :=
  ∀ id r, recordOf s.db id = some r → PaidAsDecided s id r

/-- At the commit the claim still has the status its request read, or has
meanwhile been given the very status requested and that status decides no
payment. -/
def AsReadOrRepeated (r : Record) (read : Claim) (req : TransitionRequest) : Prop :=
  r.claim.status = read.status ∨
    r.claim.status = req.newStatus ∧ (req.newStatus = .underReview ∨ req.newStatus = .rejected)

instance (r : Record) (read : Claim) (req : TransitionRequest) :
    Decidable (AsReadOrRepeated r read req) :=
  inferInstanceAs (Decidable (_ ∨ _))

/-! ## The stages of a record -/

/-- A decision has been taken, and the claim is either waiting to be resolved or
has been resolved once, with an event that reports the amount. -/
def Settled (r : Record) (decision : Claim.Status) : Prop :=
  (r.claim.status = decision ∧ resolvedOf r = []) ∨
    (r.claim.status = .resolved ∧ (changes r).getLast? = some (some decision, .resolved) ∧
      ∃ e, resolvedOf r = [e] ∧ e.data? "approved_amount" =
        r.claim.approvedAmount.map (fun amount => Json.str amount.str))

inductive Stage (r : Record) : Prop where
  | undecided (status : r.claim.status = .filed ∨ r.claim.status = .underReview)
      (amount : r.claim.approvedAmount = none) (noApproval : ¬ reached r .approved)
      (noRejection : ¬ reached r .rejected) (noEvent : resolvedOf r = [])
  | paid (settled : Settled r .approved) (amount : r.claim.approvedAmount ≠ none)
      (approval : reached r .approved) (noRejection : ¬ reached r .rejected)
  | unpaid (settled : Settled r .rejected) (amount : r.claim.approvedAmount = none)
      (noApproval : ¬ reached r .approved)

theorem reached_transitioned {r : Record} {env : Env} {fromStatus status : Claim.Status}
    {req : TransitionRequest} : reached (r.transitioned env fromStatus req) status ↔
      reached r status ∨ req.newStatus = status := by
  simp only [reached, Record.transitioned, List.mem_append, List.mem_singleton]
  constructor
  · rintro ⟨h, hr | rfl, hs⟩
    · exact Or.inl ⟨h, hr, hs⟩
    · exact Or.inr hs
  · rintro (⟨h, hr, hs⟩ | hs)
    · exact ⟨h, Or.inl hr, hs⟩
    · exact ⟨_, Or.inr rfl, hs⟩

theorem amount_approving {r : Record} {env : Env} {fromStatus : Claim.Status}
    {req : TransitionRequest} (approving : req.newStatus = .approved)
    (given : req.approvedAmount ≠ none) :
    (r.transitioned env fromStatus req).claim.approvedAmount = req.approvedAmount :=
  if_pos ⟨approving, given⟩

theorem amount_kept {r : Record} {env : Env} {fromStatus : Claim.Status}
    {req : TransitionRequest} (other : req.newStatus ≠ .approved) :
    (r.transitioned env fromStatus req).claim.approvedAmount = r.claim.approvedAmount :=
  if_neg (fun h => other h.1)

theorem resolvedOf_kept {r : Record} {env : Env} {fromStatus : Claim.Status}
    {req : TransitionRequest} (other : req.newStatus ≠ .resolved) :
    resolvedOf (r.transitioned env fromStatus req) = resolvedOf r := by
  rw [resolvedOf_transitioned, resolvedEvents, if_neg other, List.append_nil]

theorem not_reached_transitioned {r : Record} {env : Env} {fromStatus status : Claim.Status}
    {req : TransitionRequest} (h : ¬ reached r status) (other : req.newStatus ≠ status) :
    ¬ reached (r.transitioned env fromStatus req) status :=
  fun hr => (reached_transitioned.mp hr).elim h other

/-- Resolving a settled claim against its own decision emits its one event. -/
theorem settled_resolve {r : Record} {env : Env} {req : TransitionRequest}
    {decision : Claim.Status} (noEvent : resolvedOf r = [])
    (resolving : req.newStatus = .resolved) :
    Settled (r.transitioned env decision req) decision := by
  refine Or.inr ⟨resolving, ?_, ?_⟩
  · rw [changes_transitioned, resolving, List.getLast?_concat]
  · obtain ⟨e, he, _, hamount⟩ := resolvedEvents_resolving env
      (r.claim.transitioned (env.now 0) req) resolving
    exact ⟨e, by rw [resolvedOf_transitioned, noEvent, he]; rfl, hamount⟩

theorem filed_stage (env : Env) {claim : Claim} (status : claim.status = .filed)
    (amount : claim.approvedAmount = none) : Stage (filedRecord env claim) := by
  have opened : ∀ st, reached (filedRecord env claim) st → st = .filed := by
    rintro st ⟨h, hr, rfl⟩
    rw [List.mem_singleton.mp hr]
    rfl
  refine .undecided (Or.inl status) amount ?_ ?_ rfl
  · intro h
    cases opened _ h
  · intro h
    cases opened _ h

/-- A transition that was checked against the current status moves the stage on. -/
theorem stage_fresh {r : Record} {env : Env} {read : Claim} {req : TransitionRequest}
    (h : Stage r) (hcheck : checkTransition read req = .ok ())
    (fresh : r.claim.status = read.status) : Stage (r.transitioned env read.status req) := by
  obtain ⟨edge, given⟩ := checkTransition_ok hcheck
  rw [← fresh] at edge
  cases h with
  | undecided status amount noApproval noRejection noEvent =>
    rcases status with status | status
    · rw [status] at edge
      have review : req.newStatus = .underReview := List.mem_singleton.mp edge
      refine .undecided (Or.inr review) ?_ ?_ ?_ ?_
      · rw [amount_kept (by rw [review]; decide), amount]
      · exact not_reached_transitioned noApproval (by rw [review]; decide)
      · exact not_reached_transitioned noRejection (by rw [review]; decide)
      · rw [resolvedOf_kept (by rw [review]; decide), noEvent]
    · rw [status] at edge
      have decision : req.newStatus = .approved ∨ req.newStatus = .rejected := by
        simpa [validTransitions] using edge
      rcases decision with approve | reject
      · refine .paid (Or.inl ⟨approve, ?_⟩) ?_ ?_ ?_
        · rw [resolvedOf_kept (by rw [approve]; decide), noEvent]
        · rw [amount_approving approve (given approve)]
          exact given approve
        · exact reached_transitioned.mpr (Or.inr approve)
        · exact not_reached_transitioned noRejection (by rw [approve]; decide)
      · refine .unpaid (Or.inl ⟨reject, ?_⟩) ?_ ?_
        · rw [resolvedOf_kept (by rw [reject]; decide), noEvent]
        · rw [amount_kept (by rw [reject]; decide), amount]
        · exact not_reached_transitioned noApproval (by rw [reject]; decide)
  | paid settled amount approval noRejection =>
    rcases settled with ⟨status, noEvent⟩ | ⟨status, _⟩
    · rw [status] at edge
      have resolve : req.newStatus = .resolved := List.mem_singleton.mp edge
      rw [← fresh, status]
      refine .paid (settled_resolve noEvent resolve) ?_ ?_ ?_
      · rw [amount_kept (by rw [resolve]; decide)]
        exact amount
      · exact reached_transitioned.mpr (Or.inl approval)
      · exact not_reached_transitioned noRejection (by rw [resolve]; decide)
    · rw [status] at edge
      cases edge
  | unpaid settled amount noApproval =>
    rcases settled with ⟨status, noEvent⟩ | ⟨status, _⟩
    · rw [status] at edge
      have resolve : req.newStatus = .resolved := List.mem_singleton.mp edge
      rw [← fresh, status]
      refine .unpaid (settled_resolve noEvent resolve) ?_ ?_
      · rw [amount_kept (by rw [resolve]; decide), amount]
      · exact not_reached_transitioned noApproval (by rw [resolve]; decide)
    · rw [status] at edge
      cases edge

/-- Giving the claim the status it already has, neither paying nor resolving. -/
theorem stage_repeated {r : Record} {env : Env} {read : Claim} {req : TransitionRequest}
    (h : Stage r) (same : r.claim.status = req.newStatus)
    (harmless : req.newStatus = .underReview ∨ req.newStatus = .rejected) :
    Stage (r.transitioned env read.status req) := by
  have notApproving : req.newStatus ≠ .approved := by
    rcases harmless with hn | hn <;> rw [hn] <;> decide
  have notResolving : req.newStatus ≠ .resolved := by
    rcases harmless with hn | hn <;> rw [hn] <;> decide
  have sameAmount : (r.transitioned env read.status req).claim.approvedAmount =
      r.claim.approvedAmount := amount_kept notApproving
  have sameEvents : resolvedOf (r.transitioned env read.status req) = resolvedOf r :=
    resolvedOf_kept notResolving
  cases h with
  | undecided status amount noApproval noRejection noEvent =>
    rw [same] at status
    have notRejecting : req.newStatus ≠ .rejected := by
      rcases status with hs | hs <;> rw [hs] <;> decide
    exact .undecided status (sameAmount.trans amount)
      (not_reached_transitioned noApproval notApproving)
      (not_reached_transitioned noRejection notRejecting) (sameEvents.trans noEvent)
  | paid settled amount approval noRejection =>
    rcases settled with ⟨status, _⟩ | ⟨status, _⟩
    · exact absurd (same.symm.trans status) notApproving
    · exact absurd (same.symm.trans status) notResolving
  | unpaid settled amount noApproval =>
    rcases settled with ⟨status, noEvent⟩ | ⟨status, _⟩
    · exact .unpaid (Or.inl ⟨same.symm.trans status, sameEvents.trans noEvent⟩)
        (sameAmount.trans amount) (not_reached_transitioned noApproval notApproving)
    · exact absurd (same.symm.trans status) notResolving

theorem stage_transitioned {r : Record} {env : Env} {read : Claim} {req : TransitionRequest}
    (h : Stage r) (hcheck : checkTransition read req = .ok ())
    (hC : AsReadOrRepeated r read req) : Stage (r.transitioned env read.status req) := by
  rcases hC with fresh | ⟨same, harmless⟩
  · exact stage_fresh h hcheck fresh
  · exact stage_repeated h same harmless

/-- Whoever approves a claim finds it undecided. -/
theorem approving_undecided {r : Record} {read : Claim} {req : TransitionRequest}
    (h : Stage r) (hcheck : checkTransition read req = .ok ())
    (hC : AsReadOrRepeated r read req) (approving : req.newStatus = .approved) :
    r.claim.approvedAmount = none := by
  have status : r.claim.status = .underReview := by
    rcases hC with fresh | ⟨_, harmless⟩
    · have edge := (checkTransition_ok hcheck).1
      rw [approving, ← fresh] at edge
      revert edge
      cases r.claim.status <;> decide
    · rw [approving] at harmless
      rcases harmless with hn | hn <;> cases hn
  cases h with
  | undecided _ amount _ _ _ => exact amount
  | paid settled _ _ _ =>
    rcases settled with ⟨hs, _⟩ | ⟨hs, _⟩ <;> cases status.symm.trans hs
  | unpaid _ amount _ => exact amount

/-! ## The requests behind the amounts -/

/-- The amount of every claim was supplied by exactly one request. -/
def Sound (s : State) : Prop :=
  ∀ id r, recordOf s.db id = some r →
    Stage r ∧ Requests.DoneOnce approval s id (r.claim.approvedAmount.map some)

/-- A claim without a record has been approved by nobody. -/
theorem approvals_unknown {s : State} (h : Requests.Coherent service Integrity Known s)
    {id : UUID} (unknown : recordOf s.db id = none) :
    Requests.DoneOnce approval s id none := by
  rintro m b ⟨c, read, hm, he⟩
  cases c with
  | file data => cases he
  | transition req =>
    obtain ⟨hid, r, hr⟩ := h.views m (.transition req) read (Or.inr (Or.inr (Or.inl hm)))
    simp only [approval, Option.ite_none_right_eq_some, Option.some.injEq, Prod.mk.injEq] at he
    rw [hid, he.2.1, unknown] at hr
    cases hr

theorem sound_file {s t : State} {n : Nat} {env : Env} {data : ClaimData} {v : Unit}
    (h : Requests.Coherent service Integrity Known s) (hs : Sound s)
    (at_n : s.calls n = .checked (.file data) v) (hc : fileClaim s.db env data = .ok t.db)
    (ht : t.calls = Function.update s.calls n (.committed (.file data) v)) : Sound t := by
  obtain ⟨claim, _, hstatus, hamount, unknown, records⟩ := fileClaim_records h.db hc
  refine (Tables.forall_written_some_iff records rfl ?_).mpr ?_
  · intro id r _ hr
    obtain ⟨hstage, happ⟩ := hs id r hr
    exact ⟨hstage, happ.other at_n ht (by intro w he; cases he)⟩
  · refine ⟨filed_stage env hstatus hamount, ?_⟩
    have hnone : (filedRecord env claim).claim.approvedAmount = none := hamount
    rw [hnone]
    exact (approvals_unknown h unknown).other at_n ht (by intro w he; cases he)

theorem sound_transition {s t : State} {n : Nat} {env : Env} {req : TransitionRequest}
    {read : Claim} (h : Requests.Coherent service Integrity Known s) (hs : Sound s)
    (at_n : s.calls n = .checked (.transition req) read)
    (hc : transitionStatus s.db env read req = .ok t.db)
    (ht : t.calls = Function.update s.calls n (.committed (.transition req) read))
    (hC : ∀ r, recordOf s.db read.id = some r → AsReadOrRepeated r read req) : Sound t := by
  have hcheck : checkTransition read req = .ok () :=
    (service_check_transition (h.passed n (.transition req) read (Or.inl at_n))).2
  have hpk : read.id = req.pk := (h.views n (.transition req) read (Or.inr (Or.inl at_n))).1
  obtain ⟨_, records⟩ := transitionStatus_records hc
  refine (Tables.forall_written_iff records ?_).mpr ?_
  · intro id r hid hr
    obtain ⟨hstage, happ⟩ := hs id r hr
    refine ⟨hstage, happ.other at_n ht ?_⟩
    intro w he
    simp only [approval, Option.ite_none_right_eq_some, Option.some.injEq, Prod.mk.injEq] at he
    exact hid (he.2.1.symm.trans hpk.symm)
  · intro r hr
    obtain ⟨old, hold, rfl⟩ := Option.map_eq_some_iff.mp hr
    obtain ⟨hstage, happ⟩ := hs read.id old hold
    have hcond := hC old hold
    refine ⟨stage_transitioned hstage hcheck hcond, ?_⟩
    by_cases approving : req.newStatus = .approved
    · have given := (checkTransition_ok hcheck).2 approving
      rw [approving_undecided hstage hcheck hcond approving] at happ
      rw [amount_approving approving given]
      obtain ⟨a, ha⟩ := Option.ne_none_iff_exists'.mp given
      rw [ha]
      exact happ.first at_n ht (by rw [approval, if_pos approving, ha, hpk])
    · rw [amount_kept approving]
      exact happ.other at_n ht (by simp [approval, approving])

theorem sound_step {s t : State} {a : Action}
    (h : Requests.Coherent service Integrity Known s) (hs : Sound s) (hst : step s a = some t)
    (hC : Requests.OnCommit service (OnTransition AsReadOrRepeated) s a t) : Sound t := by
  rcases Requests.step_db hst with ⟨same, quiet⟩ | ⟨n, env, c, v, rfl, at_n, hc, ht⟩
  · intro id r hr
    rw [same] at hr
    obtain ⟨hstage, happ⟩ := hs id r hr
    exact ⟨hstage, happ.congr (Requests.doneBy_quiet hst quiet id)⟩
  · have hcond := (Requests.onCommit_iff at_n hc).mp hC
    cases c with
    | file data => exact sound_file h hs at_n hc ht
    | transition req => exact sound_transition h hs at_n hc ht hcond

theorem Settled.once {r : Record} {decision : Claim.Status} (h : Settled r decision) :
    (resolvedOf r).length ≤ 1 := by
  rcases h with ⟨_, hnil⟩ | ⟨_, _, e, he, _⟩
  · rw [hnil]
    exact Nat.zero_le 1
  · rw [he]
    exact Nat.le_refl 1

theorem Settled.event {r : Record} {decision : Claim.Status} (h : Settled r decision)
    {e : OutboxEvent} (he : e ∈ resolvedOf r) :
    e.data? "approved_amount" ≠ none ↔ r.claim.approvedAmount ≠ none := by
  rcases h with ⟨_, hnil⟩ | ⟨_, _, e', he', hdata⟩
  · rw [hnil] at he
    cases he
  · rw [he', List.mem_singleton] at he
    rw [he, hdata]
    cases r.claim.approvedAmount <;> simp

/-- Amount, decision and event agree at every stage. -/
theorem Sound.consistent {s : State} (h : Sound s) : PayoutsConsistent s := by
  intro id r hr
  obtain ⟨hstage, happ⟩ := h id r hr
  have supplied : ∀ a, r.claim.approvedAmount = some a →
      ∃ n, Approves s id n (some a) ∧ ∀ m b, Approves s id m b → m = n := by
    intro a ha
    rw [ha] at happ
    exact happ
  cases hstage with
  | undecided status amount noApproval noRejection noEvent =>
    refine ⟨?_, supplied, fun _ => amount, ?_, ?_⟩
    · intro a ha
      cases amount.symm.trans ha
    · rw [noEvent]
      exact Nat.zero_le 1
    · rw [noEvent]
      intro e he
      cases he
  | paid settled amount approval noRejection =>
    refine ⟨?_, supplied, fun hrej => absurd hrej noRejection, settled.once, ?_⟩
    · rintro a -
      rcases settled with ⟨hs, _⟩ | ⟨hs, hlast, _⟩
      · exact Or.inl hs
      · exact Or.inr ⟨hs, hlast⟩
    · intro e he
      exact iff_of_true ((settled.event he).mpr amount) approval
  | unpaid settled amount noApproval =>
    refine ⟨?_, supplied, fun _ => amount, settled.once, ?_⟩
    · intro a ha
      cases amount.symm.trans ha
    · intro e he
      exact iff_of_false (fun hd => (settled.event he).mp hd amount) noApproval

/-- In a run whose transitions all commit against the status they read, or
against a harmless repetition of their own, every claim pays what was decided. -/
theorem payouts_consistent_of_as_read (as : List Action)
    (hC : Runs.Steps step (Requests.OnCommit service (OnTransition AsReadOrRepeated)) init as) :
    Runs.Always step PayoutsConsistent init as := by
  have hsound : Runs.Always step Sound init as :=
    Runs.always_of_steps coherent (fun s a t => sound_step) coherent_init
      (by intro id r hr; cases hr) hC
  exact hsound.mono (fun s => Sound.consistent)

def exampleAmount : Amount := ⟨50000, by decide⟩

def exampleReview : List Action :=
  exampleFiling ++ exampleRead 1 (exampleRequest .underReview none) ++ exampleCommit 1

/-- One request after the other: review, approve, resolve. -/
def paidRun : List Action :=
  exampleReview ++ exampleRead 2 (exampleRequest .approved (some exampleAmount)) ++
    exampleCommit 2 ++ exampleRead 3 (exampleRequest .resolved none) ++ exampleCommit 3

theorem paidRun_consistent :
    (Runs.run step init paidRun).bind (fun s => (recordOf s.db ⟨0⟩).map
        (fun r => (r.claim.status, r.claim.approvedAmount))) =
      some (.resolved, some exampleAmount) ∧
    Runs.Always step PayoutsConsistent init paidRun :=
  ⟨rfl, payouts_consistent_of_as_read paidRun (by decide)⟩

/-- An approval and a rejection that both read the claim under review. -/
def rejectedAfterApproval : List Action :=
  exampleReview ++ exampleRead 2 (exampleRequest .approved (some exampleAmount)) ++
    exampleRead 3 (exampleRequest .rejected none) ++ exampleCommit 2 ++ exampleCommit 3

theorem rejectedAfterApproval_pays :
    ¬ Runs.Always step PayoutsConsistent init rejectedAfterApproval := by
  intro hall
  have pays : ¬ Runs.Always step (fun s => AllRecords (fun r => ¬ (r.claim.status = .rejected ∧
      r.claim.approvedAmount = some exampleAmount)) s.db) init rejectedAfterApproval :=
    not_always_records (fun r => (r.claim.status, r.claim.approvedAmount))
      (b := (.rejected, some exampleAmount)) rfl
      (fun r hr h => h ⟨congrArg Prod.fst hr, congrArg Prod.snd hr⟩)
  refine pays (hall.mono ?_)
  rintro s h id r hr ⟨hstatus, hamount⟩
  rcases (h id r hr).approved _ hamount with hs | ⟨hs, _⟩ <;> cases hstatus.symm.trans hs

end ClaimPayouts
