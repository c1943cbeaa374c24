import RiskCore.ClaimRecords
import Mathlib.Data.List.Forall2

/-!
# Recovering a claim from its events

The outbox rows of a claim tell its history row by row, count its resolutions,
and end in its present status and amount. Nothing here depends on the
transitions having been checked against a fresh status.
-/

namespace ClaimReplay

open Values Outbox ClaimService ClaimRecords

def isChange (e : OutboxEvent) : Bool :=
  e.eventType = "claim.filed" ∨ e.eventType = "claim.status_changed"

/-- The event tells the history row. -/
def Reports (e : OutboxEvent) (h : ClaimStatusHistory) : Prop :=
  match h.fromStatus with
  | none => e.eventType = "claim.filed" ∧ h.toStatus = .filed
  | some fromStatus =>
    e.eventType = "claim.status_changed" ∧
      e.data? "from_status" = some (.str fromStatus.value) ∧
      e.data? "to_status" = some (.str h.toStatus.value)

/-- The event shows the claim row as it is now. -/
def Describes (e : OutboxEvent) (claim : Claim) : Prop :=
  e.data? "status" = some (.str claim.status.value) ∧
    e.data? "approved_amount" = claim.approvedAmount.map (fun amount => Json.str amount.str)

structure Replays (r : Record) : Prop where
  told : List.Forall₂ Reports (r.events.filter isChange) r.history
  resolutions : (resolvedOf r).length = r.history.countP (fun h => h.toStatus = .resolved)
  latest : ∃ e, r.events.getLast? = some e ∧ Describes e r.claim

theorem filed_replays (env : Env) {claim : Claim}
    (amount : claim.approvedAmount = none) : Replays (filedRecord env claim) where
  told := .cons ⟨rfl, rfl⟩ .nil
  resolutions := rfl
  latest := by
    obtain ⟨hstatus, hamount⟩ := filedEvent_data env claim
    refine ⟨filedEvent env claim, rfl, hstatus, ?_⟩
    have hnone : (filedRecord env claim).claim.approvedAmount = none := amount
    rw [hamount, hnone]
    rfl

theorem isChange_statusChanged (env : Env) (claim : Claim) (fromStatus : Claim.Status)
    (req : TransitionRequest) : isChange (statusChangedEvent env claim fromStatus req) = true := by
  simp [isChange, statusChangedEvent, emitClaimEvent, OutboxEvent.create]

theorem isChange_resolved {env : Env} {claim : Claim} {req : TransitionRequest} {e : OutboxEvent}
    (h : e ∈ resolvedEvents env claim req) : ¬ isChange e = true := by
  unfold resolvedEvents at h
  split at h
  · rw [List.mem_singleton.mp h]
    simp [isChange, emitClaimEvent, OutboxEvent.create]
  · cases h

theorem told_transitioned {r : Record} {env : Env} {fromStatus : Claim.Status}
    {req : TransitionRequest} (h : List.Forall₂ Reports (r.events.filter isChange) r.history) :
    List.Forall₂ Reports ((r.transitioned env fromStatus req).events.filter isChange)
      (r.transitioned env fromStatus req).history := by
  have dropped : (resolvedEvents env (r.claim.transitioned (env.now 0) req) req).filter
      isChange = [] :=
    List.filter_eq_nil_iff.mpr (fun e he => isChange_resolved he)
  obtain ⟨_, hfrom, hto, _⟩ := statusChangedEvent_data env
    (r.claim.transitioned (env.now 0) req) fromStatus req
  rw [Record.transitioned, List.filter_append,
    List.filter_cons_of_pos (isChange_statusChanged env _ fromStatus req), dropped]
  exact List.rel_append h (.cons ⟨rfl, hfrom, hto⟩ .nil)

theorem resolutions_transitioned {r : Record} {env : Env} {fromStatus : Claim.Status}
    {req : TransitionRequest}
    (h : (resolvedOf r).length = r.history.countP (fun h => h.toStatus = .resolved)) :
    (resolvedOf (r.transitioned env fromStatus req)).length =
      (r.transitioned env fromStatus req).history.countP (fun h => h.toStatus = .resolved) := by
  rw [resolvedOf_transitioned, List.length_append, h, Record.transitioned, List.countP_append]
  by_cases resolving : req.newStatus = .resolved <;>
    simp [resolvedEvents, transitionHistory, resolving]

/-- Whichever event a transition emits last, it shows the row just written. -/
theorem latest_transitioned (r : Record) (env : Env) (fromStatus : Claim.Status)
    (req : TransitionRequest) :
    ∃ e, (r.transitioned env fromStatus req).events.getLast? = some e ∧
      Describes e (r.transitioned env fromStatus req).claim := by
  have hlast : (r.transitioned env fromStatus req).events.getLast? =
      (statusChangedEvent env (r.claim.transitioned (env.now 0) req) fromStatus req ::
        resolvedEvents env (r.claim.transitioned (env.now 0) req) req).getLast? := by
    rw [Record.transitioned, List.getLast?_append_of_ne_nil _ (List.cons_ne_nil _ _)]
  rw [hlast]
  by_cases resolving : req.newStatus = .resolved
  · obtain ⟨e, he, described⟩ := resolvedEvents_resolving env
      (r.claim.transitioned (env.now 0) req) resolving
    exact ⟨e, by rw [he]; rfl, described⟩
  · obtain ⟨hstatus, _, _, hamount⟩ := statusChangedEvent_data env
      (r.claim.transitioned (env.now 0) req) fromStatus req
    exact ⟨_, by rw [resolvedEvents, if_neg resolving]; rfl, hstatus, hamount⟩

theorem transitioned_replays {r : Record} {env : Env} {fromStatus : Claim.Status}
    {req : TransitionRequest} (h : Replays r) : Replays (r.transitioned env fromStatus req) where
  told := told_transitioned h.told
  resolutions := resolutions_transitioned h.resolutions
  latest := latest_transitioned r env fromStatus req

/-- The events of every claim tell its history and its present state, in every
state of every run. -/
theorem events_replay_claim (as : List Action) :
    Runs.Always step (fun s => AllRecords Replays s.db) init as := by
  refine always_allRecords ?opened ?moved as
  case opened => exact fun env _ _ => filed_replays env
  case moved => exact fun _ _ _ _ h => transitioned_replays h

end ClaimReplay
