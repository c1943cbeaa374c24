import RiskCore.ClaimLifecycle
import RiskCore.Tallies
import RiskCore.Trails

/-!
# The claim metrics and the trail of events

`get_metrics` counts the claim table; the events say which status every claim has
left and reached. The two agree in every state exactly as long as transitions
commit against the status that was read. The queries of `get_metrics` run outside
a transaction, so its figures may be of different moments.
-/

namespace ClaimMetrics

open Values Outbox Trails ClaimService ClaimRecords ClaimLifecycle

/-- `Claim.Status.values`. -/
def statusValues : List String := ["FILED", "UNDER_REVIEW", "APPROVED", "REJECTED", "RESOLVED"]

structure Metrics where
  openClaims : Nat
  claimsToday : Nat
  claimsByStatus : List (String × Nat)
deriving DecidableEq

/-- Each query sees what is committed when it runs: first the grouped one, then
the two counts. The average of the resolution days is left out. -/
def getMetrics (today : Date) (grouped opened filed : Store) : Metrics where
  openClaims := opened.claims.countP (fun c => c.status ≠ .resolved)
  claimsToday := filed.claims.countP (fun c => c.filedAt.date = today)
  claimsByStatus := Tallies.tally statusValues (fun c => c.status.value) grouped.claims

/-! ## What the events say -/

def isFiled (e : String × Json) : Bool := e.1 = "claim.filed"

def isResolved (e : String × Json) : Bool := e.1 = "claim.resolved"

/-- A claim reaches the status. -/
def reaches (s : Claim.Status) (e : String × Json) : Bool :=
  (isFiled e && s = .filed) || (e.1 = "claim.status_changed" && said e.2 "to_status" = some s.value)

/-- A claim leaves the status. -/
def leaves (s : Claim.Status) (e : String × Json) : Bool :=
  e.1 = "claim.status_changed" && said e.2 "from_status" = some s.value

/-- The figures by status are those of the trail. -/
structure Follows (m : Metrics) (trail : Trail) : Prop where
  byStatus : ∀ s : Claim.Status, ∃ n, m.claimsByStatus.lookup s.value = some n ∧
    n + trail.countP (leaves s) = trail.countP (reaches s)
  openClaims : m.openClaims + trail.countP isResolved = trail.countP isFiled
  total : (m.claimsByStatus.map Prod.snd).sum = trail.countP isFiled

/-- The same of the tables. -/
structure Balanced (db : Store) : Prop where
  byStatus : ∀ s : Claim.Status, db.claims.countP (fun c => c.status = s) +
    (trailOf db.outbox).countP (leaves s) = (trailOf db.outbox).countP (reaches s)
  openClaims : db.claims.countP (fun c => c.status ≠ .resolved) +
    (trailOf db.outbox).countP isResolved = (trailOf db.outbox).countP isFiled
  total : db.claims.length = (trailOf db.outbox).countP isFiled

theorem value_inj {s t : Claim.Status} : s.value = t.value ↔ s = t := by
  cases s <;> cases t <;> decide

theorem value_mem (s : Claim.Status) : s.value ∈ statusValues := by
  cases s <;> decide

theorem covered (claims : List Claim) : ∀ c ∈ claims, c.status.value ∈ statusValues :=
  fun c _ => value_mem c.status

theorem count_value (claims : List Claim) (s : Claim.Status) :
    Tallies.count (fun c => Claim.Status.value c.status) claims s.value =
      claims.countP (fun c => c.status = s) := by
  refine List.countP_congr (fun c _ => ?_)
  simp [value_inj]

theorem follows_iff_balanced (today : Date) (db : Store) :
    Follows (getMetrics today db db db) (trailOf db.outbox) ↔ Balanced db := by
  have lookup : ∀ s : Claim.Status, (getMetrics today db db db).claimsByStatus.lookup s.value =
      some (db.claims.countP (fun c => c.status = s)) := by
    intro s
    rw [← count_value]
    exact Tallies.lookup_tally (covered db.claims) (value_mem s)
  have total : ((getMetrics today db db db).claimsByStatus.map Prod.snd).sum = db.claims.length :=
    Tallies.sum_tally (by decide) (covered db.claims)
  constructor
  · intro h
    refine ⟨fun s => ?_, h.openClaims, total.symm.trans h.total⟩
    obtain ⟨n, hn, hflow⟩ := h.byStatus s
    rw [lookup] at hn
    cases hn
    exact hflow
  · exact fun h => ⟨fun s => ⟨_, lookup s, h.byStatus s⟩, h.openClaims, total.trans h.total⟩

/-! ## What a filing and a transition add to the trail -/

section
variable (env : Env) (claim : Claim) (fromStatus : Claim.Status) (req : TransitionRequest)
  (s : Claim.Status)

/-- The events of one transition. -/
def transitionEvents : List OutboxEvent :=
  statusChangedEvent env claim fromStatus req :: resolvedEvents env claim req

theorem said_statusChanged_from :
    said (statusChangedEvent env claim fromStatus req).payload "from_status" =
      some fromStatus.value :=
  said_of_data (statusChangedEvent_data env claim fromStatus req).2.1

theorem said_statusChanged_to :
    said (statusChangedEvent env claim fromStatus req).payload "to_status" =
      some req.newStatus.value :=
  said_of_data (statusChangedEvent_data env claim fromStatus req).2.2.1

theorem trail_transition : ∃ rest : Trail, trailOf (transitionEvents env claim fromStatus req) =
    ("claim.status_changed", (statusChangedEvent env claim fromStatus req).payload) :: rest ∧
      (∀ e ∈ rest, e.1 = "claim.resolved") ∧
      rest.length = if req.newStatus = .resolved then 1 else 0 := by
  refine ⟨trailOf (resolvedEvents env claim req), rfl, ?_, ?_⟩
  · intro e he
    obtain ⟨row, hrow, rfl⟩ := List.mem_map.mp he
    unfold resolvedEvents at hrow
    split at hrow
    · rw [List.mem_singleton.mp hrow]
      rfl
    · cases hrow
  · rw [trailOf, List.length_map, resolvedEvents]
    split <;> rfl

/-- What a filing adds: one claim reaches FILED. -/
theorem countP_filed :
    (trailOf [filedEvent env claim]).countP (reaches s) =
        (if Claim.Status.filed = s then 1 else 0) ∧
      (trailOf [filedEvent env claim]).countP (leaves s) = 0 ∧
      (trailOf [filedEvent env claim]).countP isFiled = 1 ∧
      (trailOf [filedEvent env claim]).countP isResolved = 0 := by
  have alone : trailOf [filedEvent env claim] =
      [("claim.filed", (filedEvent env claim).payload)] := rfl
  rw [alone]
  refine ⟨?_, rfl, rfl, rfl⟩
  simp [reaches, isFiled, eq_comm]

/-- What a transition adds: one claim leaves the status that was read and reaches
the new one. -/
theorem countP_transition :
    (trailOf (transitionEvents env claim fromStatus req)).countP (reaches s) =
        (if req.newStatus = s then 1 else 0) ∧
      (trailOf (transitionEvents env claim fromStatus req)).countP (leaves s) =
        (if fromStatus = s then 1 else 0) ∧
      (trailOf (transitionEvents env claim fromStatus req)).countP isFiled = 0 ∧
      (trailOf (transitionEvents env claim fromStatus req)).countP isResolved =
        (if req.newStatus = .resolved then 1 else 0) := by
  obtain ⟨rest, hrest, hlength⟩ := trail_transition env claim fromStatus req
  have quiet : ∀ {q : String × Json → Bool}, (∀ payload, q ("claim.resolved", payload) = false) →
      rest.countP q = 0 := by
    intro q hq
    refine List.countP_eq_zero.mpr (fun e he => ?_)
    rw [show e = ("claim.resolved", e.2) from Prod.ext (hlength.1 e he) rfl, hq]
    exact Bool.false_ne_true
  have resolutions : rest.countP isResolved = if req.newStatus = .resolved then 1 else 0 := by
    rw [← hlength.2]
    exact List.countP_eq_length.mpr (fun e he => by simp [isResolved, hlength.1 e he])
  rw [hrest]
  simp only [List.countP_cons, quiet (q := reaches s) (fun _ => rfl),
    quiet (q := leaves s) (fun _ => rfl), quiet (q := isFiled) (fun _ => rfl), resolutions]
  refine ⟨?_, ?_, rfl, rfl⟩
  · simp [reaches, isFiled, said_statusChanged_to, value_inj]
  · simp [leaves, said_statusChanged_from, value_inj]

end

/-! ## One commit -/

def UniqueIds (db : Store) : Prop := (db.claims.map Claim.id).Nodup

theorem balanced_file {db db' : Store} {env : Env} {data : ClaimData} (h : Balanced db)
    (hc : fileClaim db env data = .ok db') : Balanced db' := by
  obtain ⟨number, _, rfl⟩ := fileClaim_ok hc
  obtain ⟨-, -, hfiled, hresolved⟩ := countP_filed env (newClaim env number data) .filed
  constructor
  · intro s
    obtain ⟨hreaches, hleaves, -, -⟩ := countP_filed env (newClaim env number data) s
    have before := h.byStatus s
    have count := Tallies.countP_insert (fun c : Claim => c.status = s) db.claims
      (newClaim env number data)
    rw [newClaim_status] at count
    simp only [count, trail_append, List.countP_append, hreaches, hleaves]
    omega
  · have before := h.openClaims
    have count := Tallies.countP_insert (fun c : Claim => c.status ≠ .resolved) db.claims
      (newClaim env number data)
    rw [newClaim_status, if_pos (by decide)] at count
    rw [count, trail_append, List.countP_append, List.countP_append, hfiled, hresolved]
    omega
  · have before := h.total
    simp only [Tables.insert, List.length_append, List.length_singleton, trail_append,
      List.countP_append, hfiled]
    omega

/-- A transition keeps the figures in step with the trail exactly if the claim still
has the status that was read. -/
theorem balanced_transition_iff {db db' : Store} {env : Env} {read locked : Claim}
    {req : TransitionRequest} (unique : UniqueIds db) (h : Balanced db)
    (hcheck : checkTransition read req = .ok ())
    (found : Tables.find Claim.id db.claims read.id = some locked)
    (hc : transitionStatus db env read req = .ok db') :
    Balanced db' ↔ locked.status = read.status := by
  obtain ⟨locked', found', _, rfl⟩ := transitionStatus_ok hc
  cases found.symm.trans found'
  have moved := fun (p : Claim → Prop) [DecidablePred p] => Tallies.countP_update p unique found
    (fun row => row.transitioned (env.now 0) req)
  have trail := countP_transition env (locked.transitioned (env.now 0) req) read.status req
  constructor
  · intro h'
    -- the status that was read is left once more in the trail, and so in the table
    have before := h.byStatus read.status
    have after := h'.byStatus read.status
    have count := moved (fun c => c.status = read.status)
    obtain ⟨hreaches, hleaves, -, -⟩ := trail read.status
    rw [transitionEvents] at hreaches hleaves
    simp only [trail_append, List.countP_append, hreaches, hleaves, if_true] at after
    rw [transitioned_status] at count
    by_contra stale
    rw [if_neg stale] at count
    omega
  · intro fresh
    constructor
    · intro s
      have before := h.byStatus s
      have count := moved (fun c => c.status = s)
      obtain ⟨hreaches, hleaves, -, -⟩ := trail s
      rw [transitionEvents] at hreaches hleaves
      simp only [trail_append, List.countP_append, hreaches, hleaves]
      rw [transitioned_status, fresh] at count
      omega
    · have before := h.openClaims
      have count := moved (fun c => c.status ≠ .resolved)
      obtain ⟨-, -, hfiled, hresolved⟩ := trail .resolved
      rw [transitionEvents] at hfiled hresolved
      have unresolved : locked.status ≠ .resolved := by
        intro hdone
        have hedge := (checkTransition_ok hcheck).1
        rw [← fresh, hdone] at hedge
        exact no_edge_from_resolved _ hedge
      simp only [trail_append, List.countP_append, hfiled, hresolved]
      rw [transitioned_status, if_pos unresolved] at count
      by_cases resolving : req.newStatus = .resolved
      · rw [if_neg (not_not.mpr resolving)] at count
        rw [if_pos resolving]
        omega
      · rw [if_pos resolving] at count
        rw [if_neg resolving]
        omega
    · have before := h.total
      obtain ⟨-, -, hfiled, -⟩ := trail .resolved
      rw [transitionEvents] at hfiled
      simp only [Tables.update, List.length_map, trail_append, List.countP_append, hfiled]
      omega

/-! ## Runs -/

theorem unique_commit {db db' : Store} {env : Env} {c : Call} {v : View c} (h : UniqueIds db)
    (hc : service.commit db env c v = .ok db') : UniqueIds db' := by
  cases c with
  | file data =>
    obtain ⟨number, fresh, rfl⟩ := fileClaim_ok hc
    exact Tables.insert_nodup h fresh
  | transition req =>
    obtain ⟨locked, _, _, rfl⟩ := transitionStatus_ok hc
    have keeps : ∀ row : Claim, row.id = Claim.id v →
        (row.transitioned (env.now 0) req).id = Claim.id v := fun row hrow => hrow
    rw [UniqueIds, Tables.update_map_key keeps]
    exact h

theorem coherent :
    Runs.Inductive step (Requests.Coherent service UniqueIds (fun _ _ _ => True)) :=
  Requests.coherent_inductive (fun _ _ _ _ _ _ => trivial)
    (fun _ _ _ _ _ unique _ _ hc => ⟨unique_commit unique hc, fun _ _ _ => trivial⟩)

theorem coherent_init : Requests.Coherent service UniqueIds (fun _ _ _ => True) init :=
  Requests.coherent_init List.nodup_nil

theorem balanced_init : Balanced ⟨[], [], []⟩ where
  byStatus := fun _ => rfl
  openClaims := rfl
  total := rfl

theorem always_balanced_iff (as : List Action) :
    Runs.Always step (fun s => Balanced s.db) init as ↔
      Runs.Steps step (Requests.OnCommit service (OnTransition StatusAsRead)) init as := by
  refine Requests.always_db_iff coherent ?_ coherent_init balanced_init
  intro db env c v db' unique _ hpass h hc
  cases c with
  | file data => exact iff_of_true (balanced_file h hc) trivial
  | transition req =>
    have hcheck := (service_check_transition hpass).2
    obtain ⟨locked, found, -, -⟩ := transitionStatus_ok hc
    rw [balanced_transition_iff unique h hcheck found hc]
    constructor
    · intro fresh r hr
      rw [recordOf_found found] at hr
      cases hr
      exact fresh
    · exact fun fresh => fresh _ (recordOf_found found)

/-- Events are only added. -/
theorem outbox_grows {s t : State} {as : List Action} (h : Runs.run step s as = some t) :
    s.db.outbox <+: t.db.outbox := by
  have grows : Runs.Inductive step (fun u : State => s.db.outbox <+: u.db.outbox) := by
    refine Requests.db_inductive (P := fun db : Store => s.db.outbox <+: db.outbox) ?_
    intro db env c v db' hc before
    cases c with
    | file data =>
      obtain ⟨number, _, rfl⟩ := fileClaim_ok hc
      exact before.trans (List.prefix_append _ _)
    | transition req =>
      obtain ⟨locked, _, _, rfl⟩ := transitionStatus_ok hc
      exact before.trans (List.prefix_append _ _)
  exact grows.run (List.prefix_refl _) h

theorem resolved_count {db : Store} (h : Balanced db) :
    db.claims.countP (fun c => c.status = .resolved) = (trailOf db.outbox).countP isResolved := by
  have split := List.length_eq_countP_add_countP (fun c : Claim => decide (c.status = .resolved))
    (l := db.claims)
  have others : db.claims.countP (fun c => decide (¬ decide (c.status = .resolved) = true)) =
      db.claims.countP (fun c => c.status ≠ .resolved) := by
    simp
  have opened := h.openClaims
  have total := h.total
  omega

/-- The figures of `get_metrics` are those of the trail of events in every state of
a run iff every transition commits against the status it read. In such a run the
open claims counted later than the statuses are off by the claims filed and
resolved in between, and by nothing else. -/
theorem metrics_follow_trail_iff (today : Date) (as : List Action) :
    (Runs.Always step
        (fun s => Follows (getMetrics today s.db s.db s.db) (trailOf s.db.outbox)) init as ↔
      Runs.Steps step (Requests.OnCommit service (OnTransition StatusAsRead)) init as) ∧
    (Runs.Steps step (Requests.OnCommit service (OnTransition StatusAsRead)) init as →
      ∀ pre mid s t, pre ++ mid <+: as → Runs.run step init pre = some s →
        Runs.run step s mid = some t → ∀ db, ∃ new resolved,
          t.db.outbox = s.db.outbox ++ new ∧
          (getMetrics today s.db t.db db).claimsByStatus.lookup "RESOLVED" = some resolved ∧
          (getMetrics today s.db t.db db).openClaims + resolved +
              (trailOf new).countP isResolved =
            ((getMetrics today s.db t.db db).claimsByStatus.map Prod.snd).sum +
              (trailOf new).countP isFiled) := by
  have hbalanced := always_balanced_iff as
  simp only [follows_iff_balanced]
  refine ⟨hbalanced, ?_⟩
  intro hC pre mid s t hprefix hs ht db
  have hall := Runs.always_iff_prefix.mp (hbalanced.mpr hC)
  have balanced_s := hall pre ((List.prefix_append pre mid).trans hprefix) s hs
  have balanced_t := hall (pre ++ mid) hprefix t (Runs.run_append.mpr ⟨s, hs, ht⟩)
  obtain ⟨new, hnew⟩ := outbox_grows ht
  have atRead := (follows_iff_balanced today s.db).mpr balanced_s
  obtain ⟨resolved, hlookup, -⟩ := atRead.byStatus .resolved
  refine ⟨new, resolved, hnew.symm, hlookup, ?_⟩
  have total : ((getMetrics today s.db t.db db).claimsByStatus.map Prod.snd).sum =
      (trailOf s.db.outbox).countP isFiled := atRead.total
  have same := (Tallies.lookup_tally (covered s.db.claims) (value_mem .resolved)).symm.trans hlookup
  rw [count_value, resolved_count balanced_s] at same
  cases same
  have later := balanced_t.openClaims
  rw [← hnew, trail_append, List.countP_append, List.countP_append] at later
  have opened : (getMetrics today s.db t.db db).openClaims =
      t.db.claims.countP (fun c => c.status ≠ .resolved) := rfl
  omega

end ClaimMetrics
