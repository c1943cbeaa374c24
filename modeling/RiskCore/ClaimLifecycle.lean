import RiskCore.ClaimRecords
import RiskCore.Walks

/-!
# The life cycle of a claim under concurrent transitions

`transition_status` checks the status of a claim that was read without a lock
and then writes under the lock without looking again. The history of every claim
is a walk of `VALID_TRANSITIONS` exactly as long as no transition commits
against a status that has changed since it was read.
-/

namespace ClaimLifecycle

open Values Outbox ClaimService ClaimRecords Walks

def Edge (a b : Claim.Status) : Prop := b ∈ validTransitions a

/-- The history goes from the empty status to FILED, on along the edges, and
ends in the claim's status. -/
def FollowsTransitions (r : Record) : Prop :=
  IsWalk Edge .filed (changes r) r.claim.status

/-- At the commit the claim still has the status its request read. -/
def StatusAsRead (r : Record) (read : Claim) (_ : TransitionRequest) : Prop :=
  r.claim.status = read.status

instance (r : Record) (read : Claim) (req : TransitionRequest) :
    Decidable (StatusAsRead r read req) := inferInstanceAs (Decidable (_ = _))

theorem filed_follows {env : Env} {claim : Claim} (h : claim.status = .filed) :
    FollowsTransitions (filedRecord env claim) := by
  have hstatus : (filedRecord env claim).claim.status = .filed := h
  rw [FollowsTransitions, changes_filed, hstatus]
  exact isWalk_start

/-- One committed transition continues the walk iff it was checked against the
current status. -/
theorem transitioned_follows_iff {env : Env} {r : Record} {read : Claim}
    {req : TransitionRequest} (h : FollowsTransitions r)
    (hcheck : checkTransition read req = .ok ()) :
    FollowsTransitions (r.transitioned env read.status req) ↔ StatusAsRead r read req := by
  have hedge := (checkTransition_ok hcheck).1
  rw [FollowsTransitions, changes_transitioned]
  constructor
  · intro hw
    have hdep := ((h.snoc_iff _ _).mp hw).1
    exact (Option.some.inj hdep).symm
  · intro fresh
    refine (h.snoc_iff _ _).mpr ⟨by rw [fresh], ?_⟩
    rw [fresh]
    exact hedge

theorem no_edge_from_resolved (b : Claim.Status) : ¬ Edge .resolved b := List.not_mem_nil

/-- Every claim's history is a walk in every state of a run iff every transition
of the run commits against the status it read; and in such a run nothing is
written to a claim, its history or its events once it is RESOLVED. -/
theorem history_walk_iff_status_as_read (as : List Action) :
    (Runs.Always step (fun s => AllRecords FollowsTransitions s.db) init as ↔
      Runs.Steps step (Requests.OnCommit service (OnTransition StatusAsRead)) init as) ∧
    (Runs.Steps step (Requests.OnCommit service (OnTransition StatusAsRead)) init as →
      ∀ pre post s t, as = pre ++ post → Runs.run step init pre = some s →
        Runs.run step s post = some t → ∀ id r, recordOf s.db id = some r →
          r.claim.status = .resolved → recordOf t.db id = some r) := by
  constructor
  · exact always_allRecords_iff (fun _ _ hstatus _ => filed_follows hstatus)
      (fun _ _ _ _ => transitioned_follows_iff) as
  · rintro hC pre post s t rfl hs ht id r hr hresolved
    refine record_unchanged ?_ hC hs ht hr
    intro read req hcheck fresh
    have hedge : Edge read.status req.newStatus := (checkTransition_ok hcheck).1
    rw [← fresh, hresolved] at hedge
    exact no_edge_from_resolved _ hedge

/-- Two requests move the claim under review; both read it as FILED. -/
def staleReviews : List Action :=
  exampleFiling ++ exampleRead 1 (exampleRequest .underReview none) ++
    exampleRead 2 (exampleRequest .underReview none) ++ exampleCommit 1 ++ exampleCommit 2

theorem staleReviews_break_walk :
    ¬ Runs.Always step (fun s => AllRecords FollowsTransitions s.db) init staleReviews := by
  refine not_always_records changes
    (b := [(none, .filed), (some .filed, .underReview), (some .filed, .underReview)]) rfl ?_
  intro r hr h
  have hlinked := h.linked
  rw [hr] at hlinked
  revert hlinked
  decide

end ClaimLifecycle
