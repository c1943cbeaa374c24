import RiskCore.ClaimLifecycle
import RiskCore.Serializability

/-!
# When concurrent claim calls are serializable

A filing works from nothing it has read of the tables, so it always does what it
would do alone. A transition takes two things from its unlocked read: whether it
is allowed, and the status its history row and its event say it leaves. So the
calls are serializable in commit order exactly as long as every transition
commits against the status it read.
-/

namespace ClaimSerializability

open Values ClaimService ClaimRecords ClaimLifecycle Serializability

/-- Every call that commits has written. -/
def writes : Call → Bool := fun _ => true

/-- What stays true of a view. The columns that `get_queryset` filters on, the
status apart, are still those that were read. -/
def Seen (db : Store) : (c : Call) → View c → Prop
  | .file data, _ => ∃ env, service.read db env (.file data) = .ok ()
  | .transition req, read => req.filters.matches read = true ∧ read.id = req.pk ∧
      ∃ claim, Tables.find Claim.id db.claims req.pk = some claim ∧
        claim.policyId = read.policyId ∧ claim.incidentType = read.incidentType

theorem getObject_some {db : Store} {filters : ClaimFilters} {pk : UUID} {claim : Claim} :
    getObject db filters pk = .ok claim ↔
      Tables.find Claim.id db.claims pk = some claim ∧ filters.matches claim = true := by
  unfold getObject
  split
  · rename_i row hf
    split
    · rename_i hm
      rw [hf]
      constructor
      · intro h
        cases h
        exact ⟨rfl, hm⟩
      · rintro ⟨h, -⟩
        cases h
        rfl
    · rename_i hm
      rw [hf]
      refine iff_of_false (by simp) ?_
      rintro ⟨h, hmatch⟩
      cases h
      exact hm hmatch
  · rename_i hf
    simp [hf]

/-- Of a claim the filters see its status, its policy and its kind. -/
theorem matches_congr {filters : ClaimFilters} {claim claim' : Claim}
    (status : claim.status = claim'.status) (policy : claim.policyId = claim'.policyId)
    (kind : claim.incidentType = claim'.incidentType) :
    filters.matches claim = filters.matches claim' := by
  simp only [ClaimFilters.matches, status, policy, kind]

theorem commit_seen {db db' : Store} {env : Env} {c : Call} {v : View c}
    (h : service.commit db env c v = .ok db') {c' : Call} {v' : View c'} (hv : Seen db c' v') :
    Seen db' c' v' := by
  cases c' with
  | file data => exact hv
  | transition req =>
    obtain ⟨hmatch, hid, claim, hfind, hpolicy, hkind⟩ := hv
    refine ⟨hmatch, hid, ?_⟩
    cases c with
    | file data =>
      obtain ⟨number, _, rfl⟩ := fileClaim_ok h
      exact ⟨claim, Tables.find_insert_old hfind, hpolicy, hkind⟩
    | transition req' =>
      obtain ⟨locked, _, _, rfl⟩ := transitionStatus_ok h
      have keeps : ∀ r : Claim, r.id = Claim.id v →
          (r.transitioned (env.now 0) req').id = Claim.id v := fun r hr => hr
      by_cases own : req.pk = Claim.id v
      · refine ⟨claim.transitioned (env.now 0) req', ?_, hpolicy, hkind⟩
        simp only [own, Tables.find_update_self keeps]
        rw [← own, hfind, Option.map_some]
      · exact ⟨claim, by rw [Tables.find_update_ne keeps own, hfind], hpolicy, hkind⟩

theorem coherent_seen : Runs.Inductive step (Requests.Coherent service (fun _ => True) Seen) := by
  apply Requests.coherent_inductive
  · intro db env c v _ hr
    cases c with
    | file data => exact ⟨env, hr⟩
    | transition req =>
      obtain ⟨hfind, hmatch⟩ := getObject_some.mp hr
      exact ⟨hmatch, Tables.find_key hfind, v, hfind, rfl, rfl⟩
  · intro db env c v db' _ _ _ hc
    exact ⟨trivial, fun c' v' => commit_seen hc⟩

/-- A transition depends on the claim it read through its identifier and status. -/
theorem transitionStatus_congr {db : Store} {env : Env} {read read' : Claim}
    {req : TransitionRequest} (id : read.id = read'.id) (status : read.status = read'.status) :
    transitionStatus db env read req = transitionStatus db env read' req := by
  simp only [transitionStatus, id, status]

theorem checkTransition_congr {claim claim' : Claim} {req : TransitionRequest}
    (status : claim.status = claim'.status) (h : checkTransition claim req = .ok ()) :
    checkTransition claim' req = .ok () := by
  obtain ⟨edge, amount⟩ := checkTransition_ok h
  rw [status] at edge
  have given : ¬ (req.newStatus = .approved ∧ req.approvedAmount = none) :=
    fun hm => amount hm.1 hm.2
  simp only [checkTransition]
  rw [if_neg (not_not.mpr edge), if_neg given]

/-- The status the last history row leaves. -/
theorem transitionStatus_leaves {db db' : Store} {env : Env} {read : Claim}
    {req : TransitionRequest} (h : transitionStatus db env read req = .ok db') :
    db'.history.getLast?.map ClaimStatusHistory.fromStatus = some (some read.status) := by
  obtain ⟨locked, _, _, rfl⟩ := transitionStatus_ok h
  simp [transitionHistory]

theorem transition_fresh_iff {db db' : Store} {env : Env} {req : TransitionRequest} {read : Claim}
    (hv : Seen db (.transition req) read)
    (hcheck : service.check (.transition req) read = .ok ())
    (hc : transitionStatus db env read req = .ok db') :
    Fresh service db env (.transition req) db' ↔
      ∀ r, recordOf db read.id = some r → r.claim.status = read.status := by
  obtain ⟨hmatch, hid, locked, hfind, hpolicy, hkind⟩ := hv
  obtain ⟨hvalid, hallowed⟩ := service_check_transition hcheck
  constructor
  · rintro ⟨readEnv, halone⟩ r hr
    obtain ⟨v, hread, -, hcommit⟩ := alone_some.mp halone
    have hv := (getObject_some.mp hread).1
    rw [hid, recordOf_found hv] at hr
    cases hr
    -- both transactions wrote the same history, whose last row says which status was left
    have hleft := (transitionStatus_leaves hcommit).symm.trans (transitionStatus_leaves hc)
    exact Option.some.inj (Option.some.inj hleft)
  · intro hstatus
    have hrecord := hstatus ⟨locked, _, _⟩ (by rw [hid]; exact recordOf_found hfind)
    have same : locked.status = read.status := hrecord
    refine ⟨env, alone_some.mpr ⟨locked, ?_, ?_, ?_⟩⟩
    · exact getObject_some.mpr ⟨hfind, by rw [matches_congr same hpolicy hkind, hmatch]⟩
    · exact Requests.bind_ok.mpr ⟨(), hvalid, checkTransition_congr same.symm hallowed⟩
    · have sameId : locked.id = read.id := (Tables.find_key hfind).trans hid.symm
      exact (transitionStatus_congr sameId same).trans hc

/-- In every state of a run the tables are what its committed calls would leave,
served alone in the order of their commits, iff every transition of the run
commits against the status it read. -/
theorem serializable_iff_status_as_read (as : List Action) :
    (∀ pre t, pre <+: as → Runs.run step init pre = some t →
      SerialTo service writes init pre t) ↔
      Runs.Steps step (Requests.OnCommit service (OnTransition StatusAsRead)) init as := by
  have views : ∀ db env env' c (v v' : View c), service.read db env c = .ok v →
      service.read db env' c = .ok v' → v = v' := by
    intro db env env' c v v' h h'
    cases c with
    | file data => rfl
    | transition req => exact Except.ok.inj (h.symm.trans h')
  refine serializable_iff coherent_seen views (fun _ _ _ _ _ hw => by cases hw) ?_
    (Requests.coherent_init trivial) as
  intro db env c v db' hv hpass hc
  rw [imp_iff_right (show writes c = true from rfl)]
  cases c with
  | file data =>
    obtain ⟨readEnv, hread⟩ := hv
    exact iff_of_true ⟨readEnv, alone_some.mpr ⟨(), hread, hpass, hc⟩⟩ trivial
  | transition req => exact transition_fresh_iff hv hpass hc

end ClaimSerializability
